import PolyCalc.Proofs.Poly.RoundTrip

set_option autoImplicit false

/-! # Texts joined by `+`

A `+` between two sums in a text adds the polynomials that they stand for (`parse_append_plus`).
Reading the joined text takes the monomials of both at once and brings them into canonical form
together; read apart, each sum is brought into canonical form, where it may become a number, and
then they are added. Both have the same expansion, so both are the same tree.

Faults are found in the same order as well. The brackets of a text that was read are balanced, so
those of the joined text are exactly if those of the rest are, and its pieces are those of the two
parts in a row. All of the first part are read, so the first fault is one of the second part. -/

namespace PolyCalc

open Text

variable {a b : List Char} {limit levels : Nat}

namespace Text

/-! ## Brackets and pieces -/

theorem Closes.balancedFrom_append {d e : Nat} (h : Closes e a) :
    balancedFrom (d + e) (a ++ b) = balancedFrom d b := by
  induction h with
  | nil => rfl
  | @opening e cs _ ih =>
    rw [List.cons_append, balancedFrom_open]
    exact ih
  | @closing e cs _ ih =>
    rw [List.cons_append, ← Nat.add_assoc, balancedFrom_close_succ]
    exact ih
  | plain hc _ ih =>
    rw [List.cons_append, balancedFrom_plain hc]
    exact ih

theorem Closes.isBalanced_append (h : Closes 0 a) : isBalanced (a ++ b) = isBalanced b :=
  h.balancedFrom_append

/-- After a balanced text and a separator, the pieces of the rest follow those of the text. -/
theorem splitOutside?_append_cons {sep : Char} (hsep : bracketStep sep = 0) (h : Closes 0 a) :
    splitOutside? sep (a ++ sep :: b) = (splitOutside? sep b).map (pieces sep a ++ ·) := by
  have hbalanced : isBalanced (a ++ sep :: b) = isBalanced b := by
    rw [h.isBalanced_append]
    exact balancedFrom_plain hsep 0
  have hheight : height a = 0 := h.height_eq
  unfold splitOutside?
  rw [hbalanced]
  split
  · rw [pieces, piecesFrom_append_cons hsep (by omega)]
    rfl
  · rfl

end Text

namespace Poly

/-! ## Monomials -/

variable {readCoef : List Char → Except ParseFault Poly}

theorem parseMonos_append {as bs : List (List Char)} {ms : List (Mono Poly)}
    (h : parseMonos readCoef as = .ok ms) :
    parseMonos readCoef (as ++ bs) = (parseMonos readCoef bs).map (ms ++ ·) := by
  induction as generalizing ms with
  | nil =>
    cases h
    cases hbs : parseMonos readCoef bs <;> simp [hbs, Except.map]
  | cons piece as ih =>
    rw [parseMonos] at h
    obtain ⟨m, hmono, h⟩ := bind_eq_ok h
    obtain ⟨ms', hmonos, h⟩ := bind_eq_ok h
    cases h
    rw [List.cons_append, parseMonos, hmono, ih hmonos]
    cases parseMonos readCoef bs <;> rfl

/-! ## Sums -/

theorem parseWithin_append_plus {p : Poly} (ha : a.head? = some '(')
    (hread : parseWithin limit levels a = .ok p) (hb : b.head? = some '(') :
    parseWithin limit levels (a ++ '+' :: b) = (parseWithin limit levels b).map (p.add ·) := by
  obtain ⟨n, ms, rfl, hcloses, hmonos, rfl⟩ := exists_of_parseWithin_open ha hread
  have hopen : (a ++ '+' :: b).head? = some '(' := by
    rw [List.head?_append, ha]
    rfl
  rw [parseWithin_succ hopen, parseWithin_succ hb, splitOutside?_append_cons (by decide) hcloses]
  cases splitOutside? '+' b with
  | none => rfl
  | some ws =>
    show (parseMonos _ (pieces '+' a ++ ws)).map _ = _
    rw [parseMonos_append hmonos]
    dsimp only
    cases parseMonos (parseWithin limit n) ws with
    | error fault => rfl
    | ok ns =>
      show Except.ok (ofMonos (ms ++ ns)) = _
      rw [ofMonos_append]
      rfl

/-- A `+` between two sums adds them. If the first is read, the two joined by `+` are read as the
    sum of what each is read as; and if the second is not, its error is the error of the whole. -/
theorem parse_append_plus {p : Poly} {line' : Nat} (ha : a.head? = some '(')
    (hread : parse limit a line' = .ok p) (hb : b.head? = some '(') (line : Nat) :
    parse limit (a ++ '+' :: b) line = (parse limit b line).map (p.add ·) := by
  unfold parse
  rw [parseWithin_append_plus ha (parse_ok_iff.mp hread) hb]
  cases parseWithin limit limit b <;> rfl

/-- The text `(1,0)+(2,1)`. -/
def firstPart : List Char := "(1,0)+(2,1)".toList

/-- A text whose sum with `firstPart` is the number six: `(-2,1)+(5,0)`. -/
def cancellingPart : List Char := "(-2,1)+(5,0)".toList

/-- A text whose second monomial has no coefficient that can be read: `(7,3)+(x,0)`. -/
def faultyPart : List Char := "(7,3)+(x,0)".toList

theorem parse_append_plus_cancelling :
    firstPart.head? = some '(' ∧ parse 1 firstPart 3 = .ok (.sum [⟨.coeff 1, 0⟩, ⟨.coeff 2, 1⟩]) ∧
      cancellingPart.head? = some '(' ∧ faultyPart.head? = some '(' ∧
      parse 1 (firstPart ++ '+' :: cancellingPart) 7 = .ok (.coeff 6) ∧
      parse 1 (firstPart ++ '+' :: faultyPart) 7 =
        .error ⟨7, .malformed (.numeral .coefficient (.stray 'x'))⟩ := by
  have hread : parse 1 firstPart 3 = .ok (.sum [⟨.coeff 1, 0⟩, ⟨.coeff 2, 1⟩]) := by decide +kernel
  have hcancelling : parse 1 cancellingPart 7 = .ok (.sum [⟨.coeff 5, 0⟩, ⟨.coeff (-2), 1⟩]) := by
    decide +kernel
  have hfaulty : parse 1 faultyPart 7 =
      .error ⟨7, .malformed (.numeral .coefficient (.stray 'x'))⟩ := by decide +kernel
  refine ⟨rfl, hread, rfl, rfl, ?_, ?_⟩
  · rw [parse_append_plus rfl hread rfl, hcancelling]
    decide +kernel
  · rw [parse_append_plus rfl hread rfl, hfaulty]
    rfl

end Poly

end PolyCalc
