import PolyCalc.Poly.Basic

set_option autoImplicit false

/-! # Degrees

Degrees are signed 32-bit integers, and an exponent counts as the signed integer with its bits: a
degree is exact as long as it stays below `2 ^ 31`, and wraps beyond. -/

namespace PolyCalc

namespace Poly

/-- The greater of a degree and one that may be missing. -/
def maxDegree (d : Int32) : Option Int32 → Int32
  | none => d
  | some b => if b < d then d else b

mutual

/-- The total degree; `-1` for zero. -/
def degree : Poly → Int32
  | .coeff c => if c = 0 then -1 else 0
  | .sum ms => (degreeMonos ms).getD (-1)

/-- The greatest total degree of the monomials of a list whose coefficient is not zero, if there
    is one. -/
def degreeMonos : List (Mono Poly) → Option Int32
  | [] => none
  | ⟨p, e⟩ :: ms =>
    if p.isZero then degreeMonos ms else some (maxDegree (e.toInt32 + degree p) (degreeMonos ms))

end

/-- The greatest exponent in a list of monomials, if there is one. -/
def maxExp : List (Mono Poly) → Option Int32
  | [] => none
  | m :: ms => some (maxDegree m.exp.toInt32 (maxExp ms))

mutual

/-- The greatest exponent of `x_k` that is written in a polynomial; `0` if there is none. -/
def expBound : Poly → Nat → Int32
  | .coeff _, _ => 0
  | .sum ms, 0 => (maxExp ms).getD 0
  | .sum ms, k + 1 => (expBoundMonos ms k).getD 0

/-- The greatest exponent of `x_k` that is written in the coefficients of a list, if the list is
    not empty. -/
def expBoundMonos : List (Mono Poly) → Nat → Option Int32
  | [], _ => none
  | ⟨p, _⟩ :: ms, k => some (maxDegree (expBound p k) (expBoundMonos ms k))

end

/-- The degree in the variable `x_k`; `-1` for zero. -/
def degreeIn (p : Poly) (k : Nat) : Int32 :=
  if p.isZero then -1 else expBound p k

end Poly

end PolyCalc
