import PolyCalc.Calculator.Command
import PolyCalc.Proofs.Poly.Reading

set_option autoImplicit false

/-! # The language of commands

A line is read as a command exactly if it is the written form of that command; only zero can be
typed in a second way, as in `AT -0` (`Command.parse_eq_ok_iff`). Behind this are three facts, one
for each step of reading: a line is parted at its first space and can be put together again
(`joinAtSpace_splitAtSpace`), a keyword has one word (`Keyword.ofWord?_eq_some_iff`), and an
argument is the numeral that is written for it (`Keyword.command?_eq_some_iff`).

What is wrong with any other line depends on its keyword alone (`Command.error_of_parse`). -/

namespace PolyCalc

open Text

/-! ## Parting a line at its first space -/

/-- A word, and what follows it after a space, if anything does. -/
def joinAtSpace (w : List Char) : Option (List Char) → List Char
  | none => w
  | some arg => w ++ ' ' :: arg

theorem joinAtSpace_splitAtSpace (line : List Char) :
    joinAtSpace (splitAtSpace line).1 (splitAtSpace line).2 = line := by
  induction line with
  | nil => rfl
  | cons c cs ih =>
    unfold splitAtSpace
    by_cases hc : c = ' '
    · simp [hc, joinAtSpace]
    · rw [if_neg hc]
      cases hrest : (splitAtSpace cs).2 with
      | none =>
        rw [hrest] at ih
        exact congrArg (c :: ·) ih
      | some arg =>
        rw [hrest] at ih
        exact congrArg (c :: ·) ih

theorem splitAtSpace_joinAtSpace {w : List Char} (hw : ' ' ∉ w) (arg : Option (List Char)) :
    splitAtSpace (joinAtSpace w arg) = (w, arg) := by
  induction w with
  | nil => cases arg <;> rfl
  | cons c w ih =>
    simp only [List.mem_cons, not_or] at hw
    have hcons : joinAtSpace (c :: w) arg = c :: joinAtSpace w arg := by cases arg <;> rfl
    rw [hcons, splitAtSpace, if_neg (Ne.symm hw.1), ih hw.2]

theorem splitAtSpace_fst (line : List Char) :
    (splitAtSpace line).1 = line.takeWhile (· ≠ ' ') := by
  induction line with
  | nil => rfl
  | cons c cs ih =>
    unfold splitAtSpace
    by_cases hc : c = ' '
    · simp [hc]
    · simp [hc, ih]

/-! ## Keywords -/

namespace Keyword

theorem space_notMem_word (k : Keyword) : ' ' ∉ k.word := by
  cases k <;> decide

theorem ofWord?_eq_some_iff {w : List Char} {k : Keyword} : ofWord? w = some k ↔ w = k.word := by
  constructor
  · intro h
    have hfound := List.find?_some h
    exact (of_decide_eq_true hfound).symm
  · rintro rfl
    cases k <;> decide

theorem badArgument_eq_wrongCommand_iff {k : Keyword} :
    k.badArgument = .wrongCommand ↔ k.takesArgument = false := by
  cases k <;> decide

/-- Each keyword that takes an argument has an error of its own. -/
theorem eq_of_badArgument_eq {k k' : Keyword} (hk : k.takesArgument = true)
    (h : k'.badArgument = k.badArgument) : k' = k := by
  cases k with
  | degreeIn => cases k' with
    | degreeIn => rfl
    | _ => cases h
  | evalAt => cases k' with
    | evalAt => rfl
    | _ => cases h
  | compose => cases k' with
    | compose => rfl
    | _ => cases h
  | _ => cases hk

end Keyword

/-! ## Arguments -/

theorem readIndex?_eq_some_iff {cs : List Char} {k : UInt64} :
    readIndex? cs = some k ↔ cs = writeNat k.toNat := by
  constructor
  · intro h
    unfold readIndex? at h
    split at h
    · next n hread =>
      split at h
      · next hlt =>
        cases h
        rw [UInt64.toNat_ofNat_of_lt' hlt]
        exact isNatural_iff.mp (readNat_eq_ok_iff.mp hread)
      · cases h
    · cases h
  · rintro rfl
    have hread := readNat_eq_ok_iff.mpr (isNatural_writeNat k.toNat)
    simp only [readIndex?, hread, if_pos k.toNat_lt, UInt64.ofNat_toNat]

theorem readCoefficient_toOption_eq_some_iff {cs : List Char} {x : Int64} :
    (readCoefficient cs).toOption = some x ↔ cs = writeInt x.toInt ∨ cs = ['-', '0'] ∧ x = 0 := by
  have hzero : x.toInt = 0 ↔ x = 0 := by
    rw [← Int64.toInt_inj]
    rfl
  rw [← hzero, ← isInteger_iff, ← readCoefficient_eq_ok_iff]
  cases readCoefficient cs <;> simp [Except.toOption]

/-- An argument makes a command of a keyword exactly if it is the one that is written for the
    command, or it is the other numeral of zero. -/
theorem Keyword.command?_eq_some_iff {k : Keyword} {arg : Option (List Char)} {c : Command} :
    k.command? arg = some c ↔
      k = c.keyword ∧ (arg = c.argument? ∨ arg = some ['-', '0'] ∧ c = .evalAt 0) := by
  constructor
  · intro h
    cases k with
    | degreeIn =>
      cases arg with
      | none => cases h
      | some arg =>
        obtain ⟨j, hj, rfl⟩ := Option.map_eq_some_iff.mp h
        exact ⟨rfl, Or.inl (congrArg some (readIndex?_eq_some_iff.mp hj))⟩
    | compose =>
      cases arg with
      | none => cases h
      | some arg =>
        obtain ⟨j, hj, rfl⟩ := Option.map_eq_some_iff.mp h
        exact ⟨rfl, Or.inl (congrArg some (readIndex?_eq_some_iff.mp hj))⟩
    | evalAt =>
      cases arg with
      | none => cases h
      | some arg =>
        obtain ⟨x, hx, rfl⟩ := Option.map_eq_some_iff.mp h
        rcases readCoefficient_toOption_eq_some_iff.mp hx with rfl | ⟨rfl, rfl⟩
        · exact ⟨rfl, Or.inl rfl⟩
        · exact ⟨rfl, Or.inr ⟨rfl, rfl⟩⟩
    | _ =>
      cases arg with
      | none =>
        cases h
        exact ⟨rfl, Or.inl rfl⟩
      | some arg => cases h
  · rintro ⟨rfl, rfl | ⟨rfl, rfl⟩⟩
    · cases c with
      | degreeIn j =>
        exact Option.map_eq_some_iff.mpr ⟨j, readIndex?_eq_some_iff.mpr rfl, rfl⟩
      | compose j =>
        exact Option.map_eq_some_iff.mpr ⟨j, readIndex?_eq_some_iff.mpr rfl, rfl⟩
      | evalAt x =>
        exact Option.map_eq_some_iff.mpr
          ⟨x, readCoefficient_toOption_eq_some_iff.mpr (Or.inl rfl), rfl⟩
      | _ => rfl
    · exact Option.map_eq_some_iff.mpr
        ⟨0, readCoefficient_toOption_eq_some_iff.mpr (Or.inr ⟨rfl, rfl⟩), rfl⟩

/-! ## Errors -/

/-- What is wrong with a line that begins with the given word and is no command. -/
def rejection (name : List Char) : CommandError :=
  match Keyword.ofWord? name with
  | none => .wrongCommand
  | some k => k.badArgument

theorem rejection_word (k : Keyword) : rejection k.word = k.badArgument := by
  rw [rejection, Keyword.ofWord?_eq_some_iff.mpr rfl]

theorem rejection_eq_badArgument_iff {k : Keyword} (hk : k.takesArgument = true)
    {name : List Char} : rejection name = k.badArgument ↔ name = k.word := by
  constructor
  · intro h
    unfold rejection at h
    split at h
    · have hwrong := Keyword.badArgument_eq_wrongCommand_iff.mp h.symm
      rw [hk] at hwrong
      cases hwrong
    · next k' hname =>
      rw [Keyword.ofWord?_eq_some_iff.mp hname, Keyword.eq_of_badArgument_eq hk h]
  · rintro rfl
    exact rejection_word k

theorem rejection_eq_wrongCommand_iff {name : List Char} :
    rejection name = .wrongCommand ↔ ∀ k : Keyword, k.takesArgument = true → name ≠ k.word := by
  constructor
  · rintro h k hk rfl
    rw [rejection_word, Keyword.badArgument_eq_wrongCommand_iff, hk] at h
    cases h
  · intro h
    unfold rejection
    split
    · rfl
    · next k hname =>
      rw [Keyword.badArgument_eq_wrongCommand_iff, ← Bool.not_eq_true]
      intro hk
      exact h k hk (Keyword.ofWord?_eq_some_iff.mp hname)

namespace Command

/-! ## Reading lines -/

theorem parse_eq (line : List Char) :
    parse line =
      match Keyword.ofWord? (splitAtSpace line).1 with
      | none => .error .wrongCommand
      | some k =>
        match k.command? (splitAtSpace line).2 with
        | none => .error k.badArgument
        | some c => .ok c := rfl

theorem parse_joinAtSpace {k : Keyword} {arg : Option (List Char)} {c : Command}
    (h : k.command? arg = some c) : parse (joinAtSpace k.word arg) = .ok c := by
  rw [parse_eq, splitAtSpace_joinAtSpace k.space_notMem_word arg]
  simp only [Keyword.ofWord?_eq_some_iff.mpr rfl, h]

theorem render_eq_joinAtSpace (c : Command) :
    c.render = joinAtSpace c.keyword.word c.argument? := by
  unfold render joinAtSpace
  cases c.argument? <;> rfl

/-- A line that is read begins with the word of a keyword that makes a command of the rest. -/
theorem exists_of_parse_ok {line : List Char} {c : Command} (h : parse line = .ok c) :
    ∃ k : Keyword, ∃ arg, line = joinAtSpace k.word arg ∧ k.command? arg = some c := by
  rw [parse_eq] at h
  split at h
  · cases h
  · next k hname =>
    split at h
    · cases h
    · next c' hcommand =>
      cases h
      refine ⟨k, (splitAtSpace line).2, ?_, hcommand⟩
      rw [← Keyword.ofWord?_eq_some_iff.mp hname, joinAtSpace_splitAtSpace]

theorem parse_eq_ok_iff {line : List Char} {c : Command} :
    parse line = .ok c ↔ line = c.render ∨ line = "AT -0".toList ∧ c = .evalAt 0 := by
  constructor
  · intro h
    obtain ⟨k, arg, rfl, hcommand⟩ := exists_of_parse_ok h
    obtain ⟨rfl, rfl | ⟨rfl, rfl⟩⟩ := Keyword.command?_eq_some_iff.mp hcommand
    · exact Or.inl c.render_eq_joinAtSpace.symm
    · exact Or.inr ⟨rfl, rfl⟩
  · rintro (rfl | ⟨rfl, rfl⟩)
    · rw [render_eq_joinAtSpace]
      exact parse_joinAtSpace (Keyword.command?_eq_some_iff.mpr ⟨rfl, Or.inl rfl⟩)
    · have hzero : Keyword.command? .evalAt (some ['-', '0']) = some (.evalAt 0) :=
        Keyword.command?_eq_some_iff.mpr ⟨rfl, Or.inr ⟨rfl, rfl⟩⟩
      exact parse_joinAtSpace hzero

/-- The error of a line depends on its first word alone. -/
theorem error_of_parse {line : List Char} {e : CommandError} (h : parse line = .error e) :
    e = rejection (line.takeWhile (· ≠ ' ')) := by
  rw [← splitAtSpace_fst, rejection]
  rw [parse_eq] at h
  split at h
  · cases h
    rfl
  · split at h
    · cases h
      rfl
    · cases h

/-- Reading accepts exactly the written forms of commands, and reads each as its command; the only
    other line that it accepts is `AT -0`. The error of a line that it rejects is that of its
    keyword if the keyword takes an argument, and the general one otherwise. -/
theorem parse_accepts_rendered (line : List Char) :
    (∀ c, parse line = .ok c ↔ line = c.render ∨ line = "AT -0".toList ∧ c = .evalAt 0) ∧
      ∀ e, parse line = .error e →
        (e = .wrongVariable ↔ line.takeWhile (· ≠ ' ') = "DEG_BY".toList) ∧
          (e = .wrongValue ↔ line.takeWhile (· ≠ ' ') = "AT".toList) ∧
          (e = .wrongParameter ↔ line.takeWhile (· ≠ ' ') = "COMPOSE".toList) ∧
          (e = .wrongCommand ↔
            line.takeWhile (· ≠ ' ') ∉ ["DEG_BY".toList, "AT".toList, "COMPOSE".toList]) := by
  refine ⟨fun c => parse_eq_ok_iff, ?_⟩
  intro e h
  rw [error_of_parse h]
  refine ⟨rejection_eq_badArgument_iff (k := .degreeIn) rfl,
    rejection_eq_badArgument_iff (k := .evalAt) rfl,
    rejection_eq_badArgument_iff (k := .compose) rfl, ?_⟩
  rw [rejection_eq_wrongCommand_iff]
  constructor
  · intro hword hmem
    simp only [List.mem_cons, List.not_mem_nil, or_false] at hmem
    rcases hmem with hname | hname | hname
    · exact hword .degreeIn rfl hname
    · exact hword .evalAt rfl hname
    · exact hword .compose rfl hname
  · intro hmem k hk hname
    apply hmem
    rw [hname]
    cases k with
    | degreeIn => exact List.mem_cons_self
    | evalAt => exact List.mem_cons_of_mem _ List.mem_cons_self
    | compose => exact List.mem_cons_of_mem _ (List.mem_cons_of_mem _ List.mem_cons_self)
    | _ => cases hk

/-- A wrong argument, a word that only begins like a keyword, and the second numeral of zero. -/
theorem parse_accepts_rendered_faulty :
    parse "COMPOSE  2".toList = .error .wrongParameter ∧
      "COMPOSE  2".toList.takeWhile (· ≠ ' ') = "COMPOSE".toList ∧
      parse "DEG_BYX 2".toList = .error .wrongCommand ∧
      "DEG_BYX 2".toList.takeWhile (· ≠ ' ') ∉
        ["DEG_BY".toList, "AT".toList, "COMPOSE".toList] ∧
      parse "AT -0".toList = .ok (.evalAt 0) := by
  have hcompose : parse "COMPOSE  2".toList = .error .wrongParameter := by decide +kernel
  have hdegree : parse "DEG_BYX 2".toList = .error .wrongCommand := by decide +kernel
  obtain ⟨-, -, hparameter, -⟩ := (parse_accepts_rendered "COMPOSE  2".toList).2 _ hcompose
  obtain ⟨-, -, -, hcommand⟩ := (parse_accepts_rendered "DEG_BYX 2".toList).2 _ hdegree
  have hzero := ((parse_accepts_rendered "AT -0".toList).1 (.evalAt 0)).mpr (Or.inr ⟨rfl, rfl⟩)
  exact ⟨hcompose, hparameter.mp rfl, hdegree, hcommand.mp rfl, hzero⟩

end Command

end PolyCalc
