import PolyCalc.Poly.Parser
import PolyCalc.Proofs.Poly.Grammar
import PolyCalc.Proofs.Poly.NormalForm

set_option autoImplicit false

/-! # Reading follows the grammar

On a text that derives from the grammar the reader gives the canonical form of what the text
denotes, unless a limit is broken, and then the fault is about such a limit (`Derives.reads`); every
text that it reads derives from the grammar (`derives_of_parseWithin`). -/

namespace PolyCalc

open Text

variable {α β : Type} {limit levels : Nat}

/-! ## Results -/

theorem bind_eq_ok {result : Except ParseFault α} {next : α → Except ParseFault β} {b : β}
    (h : (result >>= next) = .ok b) : ∃ a, result = .ok a ∧ next a = .ok b := by
  cases result with
  | error fault => cases h
  | ok a => exact ⟨a, rfl, h⟩

/-- The result of reading a text of the right form: the value, or a fault of depth or of range that
    has a reason. -/
def ReadsAs (limit : Nat) (deep inRange : Prop) (value : α) : Except ParseFault α → Prop
  | .ok a => a = value ∧ ¬deep ∧ inRange
  | .error fault =>
    fault = .tooDeep limit ∧ deep ∨ (∃ kind text, fault = .outOfRange kind text) ∧ ¬inRange

theorem ReadsAs.bind {deep deep' inRange inRange' : Prop} {a : α} {b : β}
    {result : Except ParseFault α} {next : α → Except ParseFault β}
    (h : ReadsAs limit deep inRange a result) (hnext : ReadsAs limit deep' inRange' b (next a)) :
    ReadsAs limit (deep ∨ deep') (inRange ∧ inRange') b (result >>= next) := by
  cases result with
  | error fault =>
    rcases h with ⟨hfault, hdeep⟩ | ⟨hfault, hrange⟩
    · exact Or.inl ⟨hfault, Or.inl hdeep⟩
    · exact Or.inr ⟨hfault, fun hboth => hrange hboth.1⟩
  | ok a' =>
    obtain ⟨rfl, hdeep, hrange⟩ := h
    show ReadsAs limit _ _ b (next a')
    cases hresult : next a' with
    | error fault =>
      rw [hresult] at hnext
      rcases hnext with ⟨hfault, hdeep'⟩ | ⟨hfault, hrange'⟩
      · exact Or.inl ⟨hfault, Or.inr hdeep'⟩
      · exact Or.inr ⟨hfault, fun hboth => hrange' hboth.2⟩
    | ok b' =>
      rw [hresult] at hnext
      obtain ⟨hvalue, hdeep', hrange'⟩ := hnext
      exact ⟨hvalue, fun heither => heither.elim hdeep hdeep', hrange, hrange'⟩

theorem ReadsAs.map {deep inRange : Prop} {a : α} {result : Except ParseFault α}
    (h : ReadsAs limit deep inRange a result) (f : α → β) :
    ReadsAs limit deep inRange (f a) (result.map f) := by
  cases result with
  | error fault => exact h
  | ok a' =>
    obtain ⟨rfl, hlimits⟩ := h
    exact ⟨rfl, hlimits⟩

theorem ReadsAs.of_iff {deep deep' inRange inRange' : Prop} {a : α}
    {result : Except ParseFault α} (h : ReadsAs limit deep inRange a result)
    (hdeep : deep ↔ deep') (hrange : inRange ↔ inRange') :
    ReadsAs limit deep' inRange' a result := by
  rwa [← propext hdeep, ← propext hrange]

/-! ## Numbers -/

theorem readCoefficient_reads {cs : List Char} {i : Int} (h : IsInteger cs i) :
    ReadsAs limit False (Expr.number i).InRange (Int64.ofInt i) (readCoefficient cs) := by
  rw [readCoefficient, readInt_eq_ok_iff.mpr h, Expr.InRange]
  by_cases hrange : Int64.minValue.toInt ≤ i ∧ i ≤ Int64.maxValue.toInt
  · simp only [if_pos hrange]
    exact ⟨rfl, id, hrange⟩
  · simp only [if_neg hrange]
    exact Or.inr ⟨⟨_, _, rfl⟩, hrange⟩

theorem readExponent_reads {cs : List Char} {n : Nat} (h : IsNatural cs n) :
    ReadsAs limit False (n ≤ 2147483647) (UInt32.ofNat n) (readExponent cs) := by
  rw [readExponent, readNat_eq_ok_iff.mpr h]
  by_cases hrange : n ≤ maxReadableExponent
  · simp only [if_pos hrange]
    exact ⟨rfl, id, hrange⟩
  · simp only [if_neg hrange]
    exact Or.inr ⟨⟨_, _, rfl⟩, hrange⟩

theorem readCoefficient_eq_ok_iff {cs : List Char} {c : Int64} :
    readCoefficient cs = .ok c ↔ IsInteger cs c.toInt := by
  constructor
  · intro h
    unfold readCoefficient at h
    split at h
    · cases h
    · next i hread =>
      split at h
      · next hrange =>
        cases h
        rw [Int64.toInt_ofInt_of_le hrange.1 (Int.lt_of_le_of_lt hrange.2 (by decide))]
        exact readInt_eq_ok_iff.mp hread
      · cases h
  · intro h
    have hrange : Int64.minValue.toInt ≤ c.toInt ∧ c.toInt ≤ Int64.maxValue.toInt :=
      ⟨c.minValue_le_toInt, c.toInt_le⟩
    simp only [readCoefficient, readInt_eq_ok_iff.mpr h, if_pos hrange, Int64.ofInt_toInt]

theorem isNatural_of_readExponent {cs : List Char} {e : UInt32} (h : readExponent cs = .ok e) :
    ∃ n, IsNatural cs n := by
  rw [readExponent] at h
  split at h
  · cases h
  · next n hread => exact ⟨n, readNat_eq_ok_iff.mp hread⟩

namespace Poly

/-! ## Steps of the reader -/

theorem parseWithin_number {cs : List Char} (h : cs.head? ≠ some '(') :
    parseWithin limit levels cs = (readCoefficient cs).map .coeff := by
  rw [parseWithin.eq_def]
  exact if_neg h

theorem parseWithin_zero {cs : List Char} (h : cs.head? = some '(') :
    parseWithin limit 0 cs = .error (.tooDeep limit) := by
  rw [parseWithin.eq_def]
  exact if_pos h

theorem parseWithin_succ {cs : List Char} (h : cs.head? = some '(') :
    parseWithin limit (levels + 1) cs =
      match splitOutside? '+' cs with
      | none => .error (.malformed .unbalanced)
      | some pieces => (parseMonos (parseWithin limit levels) pieces).map ofMonos := by
  rw [parseWithin.eq_def]
  exact if_pos h

theorem splitOutside?_of_closes {cs : List Char} (h : Closes 0 cs) (sep : Char) :
    splitOutside? sep cs = some (pieces sep cs) := by
  rw [splitOutside?, if_pos (isBalanced_iff.mpr h)]

/-- A monomial is read part by part, once its brackets and its comma are found. -/
theorem parseMono_bracketed {readCoef : List Char → Except ParseFault Poly} {cs ds : List Char}
    (hcloses : Closes 0 (cs ++ ',' :: ds)) (hpieces : pieces ',' (cs ++ ',' :: ds) = [cs, ds]) :
    parseMono readCoef ('(' :: (cs ++ ',' :: ds ++ [')'])) =
      (do let p ← readCoef cs
          let e ← readExponent ds
          .ok ⟨p, e⟩) := by
  rw [parseMono]
  have hsplit : splitAtClose 0 (cs ++ ',' :: ds ++ [')']) = some (cs ++ ',' :: ds, []) :=
    splitAtClose_eq_some_iff.mpr ⟨rfl, hcloses⟩
  simp only [ne_eq, not_true_eq_false, if_false, hsplit, hpieces]

/-- The parts of a monomial that was read: brackets around a coefficient and an exponent. -/
theorem exists_of_parseMono {readCoef : List Char → Except ParseFault Poly} {piece : List Char}
    {m : Mono Poly} (h : parseMono readCoef piece = .ok m) :
    ∃ cs ds, piece = '(' :: (cs ++ ',' :: ds ++ [')']) ∧ readCoef cs = .ok m.coef ∧
      readExponent ds = .ok m.exp := by
  unfold parseMono at h
  split at h
  · cases h
  · next c cs =>
    by_cases hopen : c = '('
    · subst hopen
      rw [if_neg (by simp)] at h
      split at h
      · cases h
      · cases h
      · next inner hsplit =>
        obtain ⟨rfl, -⟩ := splitAtClose_eq_some_iff.mp hsplit
        split at h
        · next coefText expText hpieces =>
          obtain ⟨p, hcoef, h⟩ := bind_eq_ok h
          obtain ⟨e, hexp, h⟩ := bind_eq_ok h
          cases h
          -- The pieces are known by what they join to.
          have hinner : [','].intercalate [coefText, expText] = inner := by
            rw [← hpieces]
            exact intercalate_piecesFrom 0 inner
          rw [List.intercalate_cons_cons, List.intercalate_singleton] at hinner
          exact ⟨coefText, expText, by simp [← hinner], hcoef, hexp⟩
        · cases h
        · cases h
    · rw [if_pos hopen] at h
      cases h

/-- A sum that was read has balanced brackets, and its pieces were read as the monomials that it is
    made of. -/
theorem exists_of_parseWithin_open {cs : List Char} {p : Poly} (hopen : cs.head? = some '(')
    (h : parseWithin limit levels cs = .ok p) :
    ∃ n ms, levels = n + 1 ∧ Closes 0 cs ∧
      parseMonos (parseWithin limit n) (pieces '+' cs) = .ok ms ∧ p = ofMonos ms := by
  cases levels with
  | zero =>
    rw [parseWithin_zero hopen] at h
    cases h
  | succ n =>
    rw [parseWithin_succ hopen] at h
    cases hsplit : splitOutside? '+' cs with
    | none =>
      rw [hsplit] at h
      cases h
    | some ws =>
      have hcloses := closes_of_splitOutside? hsplit
      rw [splitOutside?_of_closes hcloses] at h
      cases hmonos : parseMonos (parseWithin limit n) (pieces '+' cs) with
      | error fault =>
        simp only [hmonos] at h
        cases h
      | ok ms =>
        simp only [hmonos] at h
        cases h
        exact ⟨n, ms, rfl, hcloses, hmonos, rfl⟩

end Poly

/-! ## What derives is read -/

theorem parseMonos_nil_reads {readCoef : List Char → Except ParseFault Poly} :
    ReadsAs limit False True [] (Poly.parseMonos readCoef []) :=
  ⟨rfl, id, trivial⟩

theorem parseMonos_cons_reads {readCoef : List Char → Except ParseFault Poly} {piece : List Char}
    {pieces : List (List Char)} {deep deep' inRange inRange' : Prop} {m : Mono Poly}
    {ms : List (Mono Poly)} (h : ReadsAs limit deep inRange m (Poly.parseMono readCoef piece))
    (hs : ReadsAs limit deep' inRange' ms (Poly.parseMonos readCoef pieces)) :
    ReadsAs limit (deep ∨ deep') (inRange ∧ inRange') (m :: ms)
      (Poly.parseMonos readCoef (piece :: pieces)) :=
  h.bind (hs.map (m :: ·))

mutual

theorem Derives.reads {cs : List Char} {t : Expr} (h : Derives cs t) (limit levels : Nat) :
    ReadsAs limit (levels < t.levels) t.InRange t.toPoly.normalize
      (Poly.parseWithin limit levels cs) := by
  cases h with
  | @constant _ i h =>
    rw [Poly.parseWithin_number (head?_ne_open_of_isInteger h)]
    exact ((readCoefficient_reads h).map Poly.coeff).of_iff (by simp [Expr.levels]) Iff.rfl
  | @sum _ ts h =>
    cases levels with
    | zero =>
      rw [Poly.parseWithin_zero h.head?_eq_open]
      have hdeep : 0 < (Expr.sum ts).levels := by
        rw [Expr.levels]
        omega
      exact Or.inl ⟨rfl, hdeep⟩
    | succ levels =>
      rw [Poly.parseWithin_succ h.head?_eq_open, Poly.splitOutside?_of_closes h.closes]
      have hdeep : levels < Expr.levelsOf ts ↔ levels + 1 < (Expr.sum ts).levels := by
        rw [Expr.levels]
        omega
      rw [Expr.toPoly, ← Poly.ofMonos_normalizeMonos]
      exact ((h.reads limit levels).map Poly.ofMonos).of_iff hdeep Iff.rfl

theorem DerivesSum.reads {cs : List Char} {ts : List (Expr × Nat)} (h : DerivesSum cs ts)
    (limit levels : Nat) :
    ReadsAs limit (levels < Expr.levelsOf ts) (Expr.AllInRange ts)
      (Poly.normalizeMonos (Expr.toMonos ts))
      (Poly.parseMonos (Poly.parseWithin limit levels) (pieces '+' cs)) := by
  cases h with
  | @last _ t h =>
    rw [h.pieces_plus]
    exact (parseMonos_cons_reads (h.reads limit levels) parseMonos_nil_reads).of_iff
      (by simp [Expr.levelsOf]) Iff.rfl
  | @more cs ds t ts h hs =>
    rw [h.pieces_plus_append]
    exact (parseMonos_cons_reads (h.reads limit levels) (hs.reads limit levels)).of_iff
      (by rw [Expr.levelsOf]; omega) Iff.rfl

theorem DerivesMono.reads {cs : List Char} {t : Expr × Nat} (h : DerivesMono cs t)
    (limit levels : Nat) :
    ReadsAs limit (levels < t.1.levels) (t.1.InRange ∧ t.2 ≤ 2147483647)
      (Mono.mk t.1.toPoly.normalize (UInt32.ofNat t.2))
      (Poly.parseMono (Poly.parseWithin limit levels) cs) := by
  cases h with
  | @mk cs ds p n h hn =>
    have hcloses := h.closes.append (.plain (c := ',') (by decide) (closes_of_isNatural hn))
    rw [Poly.parseMono_bracketed hcloses (h.pieces_comma hn)]
    have hexp : ReadsAs limit False (n ≤ 2147483647) (UInt32.ofNat n) (readExponent ds) :=
      readExponent_reads hn
    exact ((h.reads limit levels).bind (hexp.map (Mono.mk p.toPoly.normalize))).of_iff
      (by simp) Iff.rfl

end

/-! ## What is read derives -/

theorem derivesMono_of_parseMono {readCoef : List Char → Except ParseFault Poly}
    (hread : ∀ cs p, readCoef cs = .ok p → ∃ t, Derives cs t) {piece : List Char} {m : Mono Poly}
    (h : Poly.parseMono readCoef piece = .ok m) : ∃ t, DerivesMono piece t := by
  obtain ⟨cs, ds, rfl, hcoef, hexp⟩ := Poly.exists_of_parseMono h
  obtain ⟨p, hp⟩ := hread cs m.coef hcoef
  obtain ⟨n, hn⟩ := isNatural_of_readExponent hexp
  exact ⟨(p, n), .mk hp hn⟩

theorem derivesSum_of_parseMonos {readCoef : List Char → Except ParseFault Poly}
    (hread : ∀ cs p, readCoef cs = .ok p → ∃ t, Derives cs t) {pieces : List (List Char)}
    (hne : pieces ≠ []) {ms : List (Mono Poly)} (h : Poly.parseMonos readCoef pieces = .ok ms) :
    ∃ ts, DerivesSum (['+'].intercalate pieces) ts := by
  induction pieces generalizing ms with
  | nil => exact absurd rfl hne
  | cons piece pieces ih =>
    rw [Poly.parseMonos] at h
    obtain ⟨m, hmono, h⟩ := bind_eq_ok h
    obtain ⟨ms', hmonos, -⟩ := bind_eq_ok h
    obtain ⟨t, ht⟩ := derivesMono_of_parseMono hread hmono
    cases pieces with
    | nil =>
      rw [List.intercalate_singleton]
      exact ⟨[t], .last ht⟩
    | cons piece' pieces =>
      obtain ⟨ts, hts⟩ := ih (List.cons_ne_nil _ _) hmonos
      rw [List.intercalate_cons_cons, List.append_assoc]
      exact ⟨t :: ts, .more ht hts⟩

theorem derives_of_parseWithin_number {cs : List Char} {p : Poly} (hopen : cs.head? ≠ some '(')
    (h : Poly.parseWithin limit levels cs = .ok p) : ∃ t, Derives cs t := by
  rw [Poly.parseWithin_number hopen] at h
  cases hread : readCoefficient cs with
  | error fault => rw [hread] at h; cases h
  | ok c =>
    exact ⟨.number c.toInt, .constant (readCoefficient_eq_ok_iff.mp hread)⟩

theorem derives_of_parseWithin {cs : List Char} {p : Poly}
    (h : Poly.parseWithin limit levels cs = .ok p) : ∃ t, Derives cs t := by
  induction levels generalizing cs p with
  | zero =>
    by_cases hopen : cs.head? = some '('
    · rw [Poly.parseWithin_zero hopen] at h
      cases h
    · exact derives_of_parseWithin_number hopen h
  -- The coefficients are read with one level less.
  | succ levels ih =>
    by_cases hopen : cs.head? = some '('
    · obtain ⟨n, ms, hn, -, hmonos, -⟩ := Poly.exists_of_parseWithin_open hopen h
      cases hn
      obtain ⟨ts, hts⟩ := derivesSum_of_parseMonos (fun _ _ => ih) (piecesFrom_ne_nil 0) hmonos
      rw [intercalate_piecesFrom] at hts
      exact ⟨.sum ts, .sum hts⟩
    · exact derives_of_parseWithin_number hopen h

/-! ## Exactly the grammar -/

theorem parseWithin_ok_iff {cs : List Char} {p : Poly} :
    Poly.parseWithin limit levels cs = .ok p ↔
      ∃ t, Derives cs t ∧ t.InRange ∧ t.levels ≤ levels ∧ p = t.toPoly.normalize := by
  constructor
  · intro h
    obtain ⟨t, ht⟩ := derives_of_parseWithin h
    have hreads := ht.reads limit levels
    rw [h] at hreads
    obtain ⟨hvalue, hdeep, hrange⟩ := hreads
    exact ⟨t, ht, hrange, Nat.le_of_not_lt hdeep, hvalue⟩
  · rintro ⟨t, ht, hrange, hlevels, rfl⟩
    have hreads := ht.reads limit levels
    cases hresult : Poly.parseWithin limit levels cs with
    | error fault =>
      rw [hresult] at hreads
      rcases hreads with ⟨-, hdeep⟩ | ⟨-, hbad⟩
      · exact absurd hlevels (Nat.not_le_of_lt hdeep)
      · exact absurd hrange hbad
    | ok p =>
      rw [hresult] at hreads
      rw [hreads.1]

theorem parse_ok_iff {cs : List Char} {line : Nat} {p : Poly} :
    Poly.parse limit cs line = .ok p ↔ Poly.parseWithin limit limit cs = .ok p := by
  rw [Poly.parse]
  cases Poly.parseWithin limit limit cs with
  | error fault => constructor <;> (intro h; cases h)
  | ok q => constructor <;> (intro h; cases h; rfl)

theorem parse_error_iff {cs : List Char} {line : Nat} {e : ParseError} :
    Poly.parse limit cs line = .error e ↔
      ∃ fault, Poly.parseWithin limit limit cs = .error fault ∧ e = ⟨line, fault⟩ := by
  rw [Poly.parse]
  cases Poly.parseWithin limit limit cs with
  | error fault =>
    constructor
    · intro h
      cases h
      exact ⟨fault, rfl, rfl⟩
    · rintro ⟨fault', hfault, rfl⟩
      cases hfault
      rfl
  | ok p =>
    constructor
    · intro h
      cases h
    · rintro ⟨fault, hfault, -⟩
      cases hfault

/-- Reading accepts exactly the texts of the grammar within its limits, and gives the canonical form
    of the one expression that the text denotes. On a text of the grammar that breaks a limit it
    fails, and names a limit that is broken; every error names its line. -/
theorem parse_accepts_grammar (limit : Nat) (cs : List Char) (line : Nat) :
    (∀ p, Poly.parse limit cs line = .ok p ↔
        ∃ t, Derives cs t ∧ t.InRange ∧ t.levels ≤ limit ∧ p = t.toPoly.normalize) ∧
      (∀ t u, Derives cs t → Derives cs u → t = u) ∧
      ∀ e, Poly.parse limit cs line = .error e →
        e.line = line ∧ ∀ t, Derives cs t →
          e.fault = .tooDeep limit ∧ limit < t.levels ∨
            (∃ kind text, e.fault = .outOfRange kind text) ∧ ¬t.InRange := by
  refine ⟨fun p => parse_ok_iff.trans parseWithin_ok_iff, fun t u => Derives.unique, fun e he => ?_⟩
  obtain ⟨fault, hfault, rfl⟩ := parse_error_iff.mp he
  refine ⟨rfl, fun t ht => ?_⟩
  have hreads := ht.reads limit limit
  rwa [hfault] at hreads

/-- The text `((1,0)+(-0,2),1)`. -/
def nestedText : List Char := "((1,0)+(-0,2),1)".toList

/-- What `nestedText` denotes: two nested sums, of which the inner one is a number. -/
def nestedExpr : Expr := .sum [(.sum [(.number 1, 0), (.number 0, 2)], 1)]

theorem derives_nestedText : Derives nestedText nestedExpr := by
  have hone : DerivesMono ['(', '1', ',', '0', ')'] (.number 1, 0) :=
    @DerivesMono.mk ['1'] ['0'] (.number 1) 0 (.constant (readInt_eq_ok_iff.mp rfl))
      (readNat_eq_ok_iff.mp rfl)
  have hzero : DerivesMono ['(', '-', '0', ',', '2', ')'] (.number 0, 2) :=
    @DerivesMono.mk ['-', '0'] ['2'] (.number 0) 2 (.constant (readInt_eq_ok_iff.mp rfl))
      (readNat_eq_ok_iff.mp rfl)
  have hinner := Derives.sum (.more hone (.last hzero))
  have hexp : readNat ['1'] = .ok 1 := rfl
  exact .sum (.last (.mk hinner (readNat_eq_ok_iff.mp hexp)))

theorem inRange_nestedExpr : nestedExpr.InRange := by
  simp [nestedExpr, Expr.InRange, Expr.AllInRange]

theorem parse_accepts_grammar_nested :
    Derives nestedText nestedExpr ∧ nestedExpr.InRange ∧ nestedExpr.levels ≤ 2 ∧
      Poly.parse 2 nestedText 7 = .ok nestedExpr.toPoly.normalize ∧
      Poly.parse 0 nestedText 7 = .error ⟨7, .tooDeep 0⟩ ∧
      (ParseFault.tooDeep 0 = .tooDeep 0 ∧ 0 < nestedExpr.levels ∨
        (∃ kind text, ParseFault.tooDeep 0 = .outOfRange kind text) ∧ ¬nestedExpr.InRange) := by
  have hlevels : nestedExpr.levels ≤ 2 := by decide
  have hdeep : Poly.parse 0 nestedText 7 = .error ⟨7, .tooDeep 0⟩ := by rfl
  exact ⟨derives_nestedText, inRange_nestedExpr, hlevels,
    ((parse_accepts_grammar 2 nestedText 7).1 _).mpr
      ⟨nestedExpr, derives_nestedText, inRange_nestedExpr, hlevels, rfl⟩,
    hdeep, ((parse_accepts_grammar 0 nestedText 7).2.2 _ hdeep).2 nestedExpr derives_nestedText⟩

end PolyCalc
