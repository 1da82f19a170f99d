import PolyCalc.Poly.Arithmetic

set_option autoImplicit false

/-! # Substitution

`compose p qs` puts the polynomials `qs` for the variables of `p`, and `evalFirst x p` puts the
number `x` for its first variable. -/

namespace PolyCalc

namespace Poly

mutual

/-- Puts `qs` for `x₀, x₁, …`. A variable past the end of `qs` becomes zero, so of its powers only
    the zeroth is left; replacements past the last variable are not used. -/
def compose : Poly → List Poly → Poly
  | .coeff c, _ => .coeff c
  | .sum ms, qs => composeMonos ms qs zero

/-- Adds to `acc` the monomials of a list with `qs` put for the variables, one after the other. -/
def composeMonos : List (Mono Poly) → List Poly → Poly → Poly
  | [], _, acc => acc
  | ⟨p, e⟩ :: ms, qs, acc =>
    let term := match qs with
      | q :: rest => mul (pow q e) (compose p rest)
      | [] => if e = 0 then compose p [] else zero
    composeMonos ms qs (add acc term)

end

/-- The monomials that a monomial leaves when the variable of its level takes the value `x`: the
    variables after it move one level up. -/
def evalMono (x : Int64) (m : Mono Poly) : List (Mono Poly) :=
  match m.coef with
  | .coeff c => [⟨.coeff (c * powInt64 x m.exp), 0⟩]
  | .sum ns => ns.map (fun n => ⟨mul n.coef (.coeff (powInt64 x m.exp)), n.exp⟩)

/-- The value at `x₀ = x` as a polynomial in the variables that are left, renumbered from zero:
    `p(x, x₀, x₁, …)`. -/
def evalFirst (x : Int64) : Poly → Poly
  | .coeff c => .coeff c
  | .sum ms => ofCanonicalMonos (ms.flatMap (evalMono x))

end Poly

end PolyCalc
