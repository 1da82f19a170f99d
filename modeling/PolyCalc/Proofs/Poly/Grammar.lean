import PolyCalc.Poly.Arithmetic
import PolyCalc.Proofs.Text.Brackets
import PolyCalc.Proofs.Text.Numeral

set_option autoImplicit false

/-! # The grammar of written polynomials

```text
poly     := constant | monomial ('+' monomial)*
monomial := '(' poly ',' exponent ')'
constant := ['-'] digits
exponent := digits
```

`Derives cs t` says that the text `cs` derives from `poly` and that the derivation denotes `t`, an
expression whose numbers may have any size. A text has at most one such expression
(`Derives.unique`): its brackets are balanced, so a scan for what stands outside of them finds the
parts that the derivation was put together from. -/

namespace PolyCalc

open Text

/-! ## Expressions -/

/-- What a text says: a number, or a sum of terms with their exponents. Numbers are not bounded. -/
inductive Expr where
  | number (i : Int)
  | sum (terms : List (Expr × Nat))

namespace Expr

mutual

/-- The number of nested sums. -/
def levels : Expr → Nat
  | .number _ => 0
  | .sum ts => 1 + levelsOf ts

/-- The greatest number of nested sums in a term of a list. -/
def levelsOf : List (Expr × Nat) → Nat
  | [] => 0
  | (p, _) :: ts => max p.levels (levelsOf ts)

end

mutual

/-- Whether all constants are 64-bit integers and all exponents at most `2 ^ 31 - 1`. -/
def InRange : Expr → Prop
  | .number i => -9223372036854775808 ≤ i ∧ i ≤ 9223372036854775807
  | .sum ts => AllInRange ts

/-- What `InRange` says of a list of terms. -/
def AllInRange : List (Expr × Nat) → Prop
  | [] => True
  | (p, n) :: ts => (p.InRange ∧ n ≤ 2147483647) ∧ AllInRange ts

end

mutual

/-- The tree that an expression in range denotes. -/
def toPoly : Expr → Poly
  | .number i => .coeff (Int64.ofInt i)
  | .sum ts => .sum (toMonos ts)

/-- The monomials that terms in range denote. -/
def toMonos : List (Expr × Nat) → List (Mono Poly)
  | [] => []
  | (p, n) :: ts => ⟨p.toPoly, UInt32.ofNat n⟩ :: toMonos ts

end

mutual

theorem depth_toPoly : ∀ t : Expr, t.toPoly.depth = t.levels
  | .number _ => rfl
  | .sum ts => by rw [toPoly, Poly.depth, levels, depthMonos_toMonos ts]

theorem depthMonos_toMonos : ∀ ts : List (Expr × Nat), Poly.depthMonos (toMonos ts) = levelsOf ts
  | [] => rfl
  | (p, n) :: ts => by
    rw [toMonos, Poly.depthMonos, levelsOf, depth_toPoly p, depthMonos_toMonos ts]

end

end Expr

/-! ## Derivations -/

mutual

/-- The text derives from `poly`, and the derivation denotes the expression. -/
inductive Derives : List Char → Expr → Prop
  | constant {cs : List Char} {i : Int} : IsInteger cs i → Derives cs (.number i)
  | sum {cs : List Char} {ts : List (Expr × Nat)} : DerivesSum cs ts → Derives cs (.sum ts)

/-- The text is one monomial or several joined by `+`. -/
inductive DerivesSum : List Char → List (Expr × Nat) → Prop
  | last {cs : List Char} {t : Expr × Nat} : DerivesMono cs t → DerivesSum cs [t]
  | more {cs ds : List Char} {t : Expr × Nat} {ts : List (Expr × Nat)} :
    DerivesMono cs t → DerivesSum ds ts → DerivesSum (cs ++ '+' :: ds) (t :: ts)

/-- The text derives from `monomial`. -/
inductive DerivesMono : List Char → Expr × Nat → Prop
  | mk {cs ds : List Char} {p : Expr} {n : Nat} :
    Derives cs p → IsNatural ds n → DerivesMono ('(' :: (cs ++ ',' :: ds ++ [')'])) (p, n)

end

/-! ## Brackets of derived texts -/

theorem bracketStep_of_isDigit {c : Char} (h : c.isDigit = true) : bracketStep c = 0 := by
  rw [bracketStep_eq_zero_iff]
  constructor <;> rintro rfl <;> exact absurd h (by decide)

theorem closes_of_isNatural {cs : List Char} {n : Nat} (h : IsNatural cs n) : Closes 0 cs :=
  closes_of_plain fun c hc => bracketStep_of_isDigit (h.1.isDigit c hc)

theorem closes_of_isInteger {cs : List Char} {i : Int} (h : IsInteger cs i) : Closes 0 cs := by
  refine closes_of_plain fun c hc => ?_
  rcases h.isDigit c hc with rfl | hdigit
  · rfl
  · exact bracketStep_of_isDigit hdigit

mutual

theorem Derives.closes {cs : List Char} {t : Expr} : Derives cs t → Closes 0 cs
  | .constant h => closes_of_isInteger h
  | .sum h => h.closes

theorem DerivesSum.closes {cs : List Char} {ts : List (Expr × Nat)} :
    DerivesSum cs ts → Closes 0 cs
  | .last h => h.closes
  | .more h hs => h.closes.append (.plain (by decide) hs.closes)

theorem DerivesMono.closes {cs : List Char} {t : Expr × Nat} : DerivesMono cs t → Closes 0 cs
  | .mk h hn => (h.closes.append (.plain (by decide) (closes_of_isNatural hn))).bracketed .nil

end

theorem DerivesMono.freeFrom {cs : List Char} {t : Expr × Nat} (h : DerivesMono cs t)
    (sep : Char) : freeFrom sep 0 cs = true := by
  cases h with
  | mk h hn =>
    have hinner := h.closes.append (.plain (c := ',') (by decide) (closes_of_isNatural hn))
    exact hinner.freeFrom_bracketed

theorem DerivesSum.freeFrom_comma {cs : List Char} {ts : List (Expr × Nat)}
    (h : DerivesSum cs ts) : freeFrom ',' 0 cs = true := by
  cases h with
  | last h => exact h.freeFrom ','
  | @more cs ds t ts h hs =>
    have hheight : height cs = 0 := h.closes.height_eq
    rw [freeFrom_append, h.freeFrom ',', hheight, Text.freeFrom]
    exact hs.freeFrom_comma

theorem Derives.freeFrom_comma {cs : List Char} {t : Expr} (h : Derives cs t) :
    freeFrom ',' 0 cs = true := by
  cases h with
  | constant h =>
    refine freeFrom_of_ne 0 fun c hc => ?_
    rcases h.isDigit c hc with rfl | hdigit
    · decide
    · rintro rfl
      exact absurd hdigit (by decide)
  | sum h => exact h.freeFrom_comma

/-! ## How derived texts are taken apart -/

theorem head?_ne_open_of_isInteger {cs : List Char} {i : Int} (h : IsInteger cs i) :
    cs.head? ≠ some '(' := by
  intro hhead
  rcases h.isDigit '(' (List.mem_of_head? hhead) with hc | hdigit
  · exact absurd hc (by decide)
  · exact absurd hdigit (by decide)

theorem DerivesSum.head?_eq_open {cs : List Char} {ts : List (Expr × Nat)} (h : DerivesSum cs ts) :
    cs.head? = some '(' := by
  cases h with
  | last h => cases h; rfl
  | more h _ => cases h; rfl

theorem DerivesMono.pieces_plus {cs : List Char} {t : Expr × Nat} (h : DerivesMono cs t) :
    pieces '+' cs = [cs] :=
  pieces_of_free (h.freeFrom '+')

theorem DerivesMono.pieces_plus_append {cs : List Char} {t : Expr × Nat} (h : DerivesMono cs t)
    (ds : List Char) : pieces '+' (cs ++ '+' :: ds) = cs :: pieces '+' ds :=
  pieces_append_cons (by decide) h.closes (h.freeFrom '+')

theorem Derives.pieces_comma {cs ds : List Char} {t : Expr} {n : Nat} (h : Derives cs t)
    (hn : IsNatural ds n) : pieces ',' (cs ++ ',' :: ds) = [cs, ds] := by
  have hdigits : freeFrom ',' 0 ds = true := by
    refine freeFrom_of_ne 0 fun c hc => ?_
    rintro rfl
    exact absurd (hn.1.isDigit ',' hc) (by decide)
  rw [pieces_append_cons (by decide) h.closes h.freeFrom_comma, pieces_of_free hdigits]

/-! ## Unique reading -/

mutual

theorem Derives.unique {cs : List Char} {t u : Expr} (h : Derives cs t) (h' : Derives cs u) :
    t = u := by
  cases h with
  | constant h =>
    cases h' with
    | constant h' => rw [h.unique h']
    | sum h' => exact absurd h'.head?_eq_open (head?_ne_open_of_isInteger h)
  | sum h =>
    cases h' with
    | constant h' => exact absurd h.head?_eq_open (head?_ne_open_of_isInteger h')
    | sum h' => rw [h.unique h']

theorem DerivesSum.unique {cs : List Char} {ts us : List (Expr × Nat)} (h : DerivesSum cs ts)
    (h' : DerivesSum cs us) : ts = us := by
  cases h with
  | last h =>
    cases h' with
    | last h' => rw [h.unique h']
    | more h' _ =>
      have hpieces := h.pieces_plus
      rw [h'.pieces_plus_append] at hpieces
      exact absurd (List.cons.inj hpieces).2 (piecesFrom_ne_nil _)
  -- Two derivations of one text could part it at different places; its pieces say they do not.
  | @more cs ds _ _ h hs =>
    generalize htext : cs ++ '+' :: ds = text at h'
    cases h' with
    | last h' =>
      have hpieces := h'.pieces_plus
      rw [← htext, h.pieces_plus_append] at hpieces
      exact absurd (List.cons.inj hpieces).2 (piecesFrom_ne_nil _)
    | @more _ es _ _ h' hs' =>
      have hpieces := h'.pieces_plus_append es
      rw [← htext, h.pieces_plus_append] at hpieces
      obtain ⟨rfl, -⟩ := List.cons.inj hpieces
      obtain ⟨-, rfl⟩ := List.cons.inj (List.append_cancel_left htext)
      rw [h.unique h', hs.unique hs']

theorem DerivesMono.unique {cs : List Char} {t u : Expr × Nat} (h : DerivesMono cs t)
    (h' : DerivesMono cs u) : t = u := by
  cases h with
  | @mk as ds p n h hn =>
    generalize htext : '(' :: (as ++ ',' :: ds ++ [')']) = text at h'
    cases h' with
    | @mk bs es q m h' hm =>
      have hparts : as ++ ',' :: ds = bs ++ ',' :: es :=
        List.append_cancel_right (List.cons.inj htext).2
      have hpieces := h.pieces_comma hn
      rw [hparts, h'.pieces_comma hm] at hpieces
      cases hpieces
      rw [h.unique h', ← hn.2, hm.2]

end

end PolyCalc
