import Mathlib.Data.List.Induction
import PolyCalc.Text.Numeral

set_option autoImplicit false

/-! # Numerals

The texts that are read as numbers, said without the reader: `IsNatural cs n` and `IsInteger cs i`.
Readers accept exactly these (`readNat_eq_ok_iff`, `readInt_eq_ok_iff`), and what is written is
among them (`isNatural_writeNat`, `isInteger_writeInt`). There is nothing else among them but `-0`:
a number has one numeral (`isNatural_iff`, `isInteger_iff`). -/

namespace PolyCalc.Text

/-! ## The texts of numbers -/

/-- The digit `0`, or digits of which the first is not `0`. -/
def IsDigits (cs : List Char) : Prop :=
  cs = ['0'] ∨ cs ≠ [] ∧ cs.head? ≠ some '0' ∧ ∀ c ∈ cs, c.isDigit = true

/-- The number that a text of decimal digits stands for. -/
def digitsValue (cs : List Char) : Nat := Nat.ofDigitChars 10 cs 0

/-- The text is a numeral of `n`. -/
def IsNatural (cs : List Char) (n : Nat) : Prop := IsDigits cs ∧ digitsValue cs = n

/-- The text is a numeral of `i`: digits, perhaps after `-`. -/
inductive IsInteger : List Char → Int → Prop
  | plain {cs : List Char} {n : Nat} : IsNatural cs n → IsInteger cs n
  | negated {cs : List Char} {n : Nat} : IsNatural cs n → IsInteger ('-' :: cs) (-n)

theorem IsDigits.ne_nil {cs : List Char} (h : IsDigits cs) : cs ≠ [] := by
  rcases h with rfl | ⟨h, -⟩
  · simp
  · exact h

theorem IsDigits.isDigit {cs : List Char} (h : IsDigits cs) : ∀ c ∈ cs, c.isDigit = true := by
  rcases h with rfl | ⟨-, -, h⟩
  · simp
  · exact h

theorem isDigits_iff (cs : List Char) :
    IsDigits cs ↔ cs ≠ [] ∧ (∀ c ∈ cs, c.isDigit = true) ∧ hasLeadingZero cs = false := by
  constructor
  · intro h
    refine ⟨h.ne_nil, h.isDigit, ?_⟩
    rcases h with rfl | ⟨-, hhead, -⟩
    · rfl
    · unfold hasLeadingZero
      split
      · simpa using hhead
      · rfl
  · rintro ⟨hnil, hdigit, hzero⟩
    by_cases hhead : cs.head? = some '0'
    · obtain ⟨rest, rfl⟩ := List.head?_eq_some_iff.mp hhead
      cases rest with
      | nil => exact Or.inl rfl
      | cons c rest => simp [hasLeadingZero] at hzero
    · exact Or.inr ⟨hnil, hhead, hdigit⟩

theorem IsInteger.isDigit {cs : List Char} {i : Int} (h : IsInteger cs i) :
    ∀ c ∈ cs, c = '-' ∨ c.isDigit = true := by
  cases h with
  | plain h => exact fun c hc => Or.inr (h.1.isDigit c hc)
  | negated h => exact List.forall_mem_cons.mpr ⟨Or.inl rfl, fun c hc => Or.inr (h.1.isDigit c hc)⟩

theorem IsInteger.ne_nil {cs : List Char} {i : Int} (h : IsInteger cs i) : cs ≠ [] := by
  cases h with
  | plain h => exact h.1.ne_nil
  | negated h => exact List.cons_ne_nil _ _

/-- Digits are no letters. -/
theorem isAlpha_of_isDigit {c : Char} (h : c.isDigit = true) : c.isAlpha = false := by
  have hupper : 'A'.val.toNat = 65 := rfl
  have hlower : 'a'.val.toNat = 97 := rfl
  have hnine : '9'.val.toNat = 57 := rfl
  unfold Char.isAlpha Char.isUpper Char.isLower
  unfold Char.isDigit at h
  simp [UInt32.le_iff_toNat_le] at h ⊢
  omega

/-! ## Reading -/

theorem readNat_eq_ok_iff {cs : List Char} {n : Nat} : readNat cs = .ok n ↔ IsNatural cs n := by
  rw [IsNatural, isDigits_iff, readNat, digitsValue]
  cases cs with
  | nil => simp
  | cons c cs =>
    cases hstray : (c :: cs).find? (fun c => !c.isDigit) with
    | some d =>
      have hd := List.find?_some hstray
      have hmem := List.mem_of_find?_eq_some hstray
      simp only [List.isEmpty_cons, Bool.false_eq_true, if_false]
      constructor
      · simp
      · rintro ⟨⟨-, hdigit, -⟩, -⟩
        simp [hdigit d hmem] at hd
    | none =>
      have hdigit : ∀ d ∈ c :: cs, d.isDigit = true := by simpa using hstray
      by_cases hzero : hasLeadingZero (c :: cs) = true
      · simp [hzero]
      · simp [hzero] at hdigit ⊢
        exact fun _ => hdigit

theorem map_readNat_eq_ok_iff {cs : List Char} {f : Nat → Int} {i : Int} :
    (readNat cs).map f = .ok i ↔ ∃ n, IsNatural cs n ∧ f n = i := by
  cases hread : readNat cs with
  | error e =>
    constructor
    · intro h
      simp [Except.map] at h
    · rintro ⟨n, hn, -⟩
      rw [readNat_eq_ok_iff.mpr hn] at hread
      cases hread
  | ok n =>
    have hn := readNat_eq_ok_iff.mp hread
    constructor
    · intro h
      exact ⟨n, hn, by simpa [Except.map] using h⟩
    · rintro ⟨m, hm, rfl⟩
      rw [← hn.2, hm.2]
      rfl

theorem readInt_minus (cs : List Char) :
    readInt ('-' :: cs) = (readNat cs).map (fun n : Nat => -(n : Int)) := by
  rw [readInt]
  cases readNat cs <;> rfl

theorem readInt_plain {cs : List Char} (h : ∀ ds, cs ≠ '-' :: ds) :
    readInt cs = (readNat cs).map (fun n : Nat => (n : Int)) := by
  rw [readInt]
  · cases readNat cs <;> rfl
  · exact h

theorem readInt_eq_ok_iff {cs : List Char} {i : Int} : readInt cs = .ok i ↔ IsInteger cs i := by
  by_cases hminus : ∃ ds, cs = '-' :: ds
  · obtain ⟨ds, rfl⟩ := hminus
    rw [readInt_minus, map_readNat_eq_ok_iff]
    constructor
    · rintro ⟨n, hn, rfl⟩
      exact .negated hn
    · intro h
      cases h with
      | plain h => exact absurd (h.1.isDigit '-' List.mem_cons_self) (by decide)
      | negated h => exact ⟨_, h, rfl⟩
  · rw [readInt_plain (fun ds h => hminus ⟨ds, h⟩), map_readNat_eq_ok_iff]
    constructor
    · rintro ⟨n, hn, rfl⟩
      exact .plain hn
    · intro h
      cases h with
      | plain h => exact ⟨_, h, rfl⟩
      | negated h => exact absurd ⟨_, rfl⟩ hminus

/-- A text is a numeral of one integer at most. -/
theorem IsInteger.unique {cs : List Char} {i j : Int} (h : IsInteger cs i) (h' : IsInteger cs j) :
    i = j := by
  have hread := readInt_eq_ok_iff.mpr h
  rw [readInt_eq_ok_iff.mpr h'] at hread
  cases hread
  rfl

/-! ## Writing -/

theorem head?_toDigits_ne_zero {n : Nat} (h : 0 < n) : (Nat.toDigits 10 n).head? ≠ some '0' := by
  induction n using Nat.strongRecOn with
  | ind n ih =>
    by_cases hn : n < 10
    · rw [Nat.toDigits_of_lt_base hn, List.head?_cons, ne_eq, Option.some_inj,
        Nat.digitChar_eq_zero]
      omega
    · rw [Nat.toDigits_of_base_le (by decide) (by omega), List.head?_append]
      have hlead := ih (n / 10) (by omega) (by omega)
      cases hd : (Nat.toDigits 10 (n / 10)).head? with
      | none => exact absurd (List.head?_eq_none_iff.mp hd) Nat.toDigits_ne_nil
      | some d => simpa [hd] using hlead

theorem isNatural_writeNat (n : Nat) : IsNatural (writeNat n) n := by
  refine ⟨?_, Nat.ofDigitChars_toDigits (by decide) (by decide)⟩
  by_cases hn : n = 0
  · subst hn
    exact Or.inl (Nat.toDigits_zero 10)
  · exact Or.inr ⟨Nat.toDigits_ne_nil, head?_toDigits_ne_zero (by omega),
      fun c hc => Nat.isDigit_of_mem_toDigits (by decide) (by decide) hc⟩

theorem isInteger_writeInt (i : Int) : IsInteger (writeInt i) i := by
  rw [writeInt]
  by_cases hi : i < 0
  · have hwrite := IsInteger.negated (isNatural_writeNat i.natAbs)
    have habs : -(i.natAbs : Int) = i := by omega
    rwa [if_pos hi, ← habs, Int.natAbs_neg, Int.natAbs_natCast]
  · have hwrite := IsInteger.plain (isNatural_writeNat i.natAbs)
    have habs : (i.natAbs : Int) = i := by omega
    rwa [if_neg hi, ← habs, Int.natAbs_natCast]

theorem writeNat_injective {m n : Nat} (h : writeNat m = writeNat n) : m = n := by
  have hm := isNatural_writeNat m
  rw [h] at hm
  exact hm.2.symm.trans (isNatural_writeNat n).2

theorem writeInt_injective {i j : Int} (h : writeInt i = writeInt j) : i = j := by
  have hi := isInteger_writeInt i
  rw [h] at hi
  exact hi.unique (isInteger_writeInt j)

theorem notMem_writeNat {c : Char} (hc : c.isDigit = false) (n : Nat) : c ∉ writeNat n := by
  intro hmem
  have hdigit := (isNatural_writeNat n).1.isDigit c hmem
  rw [hc] at hdigit
  exact Bool.false_ne_true hdigit

/-! ## One numeral for each number -/

theorem exists_eq_digitChar {c : Char} (h : c.isDigit = true) :
    ∃ d, d < 10 ∧ c = Nat.digitChar d ∧ c.toNat - '0'.toNat = d := by
  have hrange : 48 ≤ c.toNat ∧ c.toNat ≤ 57 := by
    unfold Char.isDigit at h
    simpa [UInt32.le_iff_toNat_le] using h
  have hzero : '0'.toNat = 48 := rfl
  have hchar : ∀ d < 10, Nat.digitChar d = Char.ofNat (48 + d) := by decide
  obtain ⟨d, hd⟩ := Nat.exists_eq_add_of_le hrange.1
  have hlt : d < 10 := by omega
  refine ⟨d, hlt, ?_, by omega⟩
  rw [hchar d hlt, ← hd, Char.ofNat_toNat]

theorem digitsValue_append_singleton (cs : List Char) (c : Char) :
    digitsValue (cs ++ [c]) = 10 * digitsValue cs + (c.toNat - '0'.toNat) := by
  rw [digitsValue, Nat.ofDigitChars_append, Nat.ofDigitChars_cons, Nat.ofDigitChars_nil]
  rfl

theorem IsDigits.of_append_singleton {cs : List Char} {c : Char} (h : IsDigits (cs ++ [c]))
    (hnil : cs ≠ []) : IsDigits cs ∧ cs.head? ≠ some '0' := by
  obtain ⟨d, ds, rfl⟩ := List.exists_cons_of_ne_nil hnil
  rcases h with h | ⟨-, hhead, hdigit⟩
  · simp at h
  · exact ⟨Or.inr ⟨hnil, hhead, (List.forall_mem_append.mp hdigit).1⟩, hhead⟩

/-- Digits without a leading zero are what is written for their value: the last digit is the value
    modulo ten, and those before it are written for a tenth of the value. -/
theorem writeNat_digitsValue {cs : List Char} (h : IsDigits cs) :
    writeNat (digitsValue cs) = cs := by
  induction cs using List.reverseRecOn with
  | nil => exact absurd rfl h.ne_nil
  | append_singleton cs c ih =>
    obtain ⟨d, hd, hc, hvalue⟩ := exists_eq_digitChar (h.isDigit c (by simp))
    rw [digitsValue_append_singleton, hvalue, hc, writeNat]
    by_cases hnil : cs = []
    · have hzero : 10 * digitsValue cs + d = d := by simp [hnil, digitsValue]
      rw [hzero, Nat.toDigits_of_lt_base hd, hnil]
      rfl
    · obtain ⟨hdigits, hhead⟩ := h.of_append_singleton hnil
      have hwrite : Nat.toDigits 10 (digitsValue cs) = cs := ih hdigits
      have hpos : digitsValue cs ≠ 0 := by
        intro hzero
        rw [hzero, Nat.toDigits_zero] at hwrite
        exact hhead (by rw [← hwrite]; rfl)
      have hdiv : (10 * digitsValue cs + d) / 10 = digitsValue cs := by omega
      have hmod : (10 * digitsValue cs + d) % 10 = d := by omega
      rw [Nat.toDigits_of_base_le (by decide) (by omega), hdiv, hmod, hwrite]

theorem isNatural_iff {cs : List Char} {n : Nat} : IsNatural cs n ↔ cs = writeNat n := by
  constructor
  · rintro ⟨hdigits, rfl⟩
    exact (writeNat_digitsValue hdigits).symm
  · rintro rfl
    exact isNatural_writeNat n

/-- Zero has a second numeral, and no other number has. -/
theorem isInteger_iff {cs : List Char} {i : Int} :
    IsInteger cs i ↔ cs = writeInt i ∨ cs = ['-', '0'] ∧ i = 0 := by
  constructor
  · intro h
    cases h with
    | @plain cs n h =>
      left
      rw [isNatural_iff.mp h, writeInt, if_neg (by omega), Int.natAbs_natCast]
    | @negated cs n h =>
      rw [isNatural_iff.mp h]
      by_cases hn : n = 0
      · right
        subst hn
        exact ⟨rfl, rfl⟩
      · left
        rw [writeInt, if_pos (by omega), Int.natAbs_neg, Int.natAbs_natCast]
  · rintro (rfl | ⟨rfl, rfl⟩)
    · exact isInteger_writeInt i
    · have hzero : readNat ['0'] = .ok 0 := rfl
      exact .negated (readNat_eq_ok_iff.mp hzero)

end PolyCalc.Text
