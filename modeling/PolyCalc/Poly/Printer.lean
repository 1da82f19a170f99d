import PolyCalc.Poly.Basic
import PolyCalc.Text.Numeral

set_option autoImplicit false

/-! # Writing polynomials

A number is written in decimal and a sum as its monomials `(p,e)` joined by `+`. The form shows
the tree: `(5,0)` is a sum and `5` is not; an empty sum is the empty text. -/

namespace PolyCalc

/-- A monomial in brackets, around the text of its coefficient and its exponent. -/
def renderMono (coefText : List Char) (e : UInt32) : List Char :=
  '(' :: coefText ++ ',' :: Text.writeNat e.toNat ++ [')']

namespace Poly

mutual

/-- The written form of a polynomial. -/
def render : Poly → List Char
  | .coeff c => Text.writeInt c.toInt
  | .sum ms => renderMonos ms

/-- The written forms of monomials, joined by `+`. -/
def renderMonos : List (Mono Poly) → List Char
  | [] => []
  | [⟨p, e⟩] => renderMono (render p) e
  | ⟨p, e⟩ :: ms => renderMono (render p) e ++ '+' :: renderMonos ms

end

end Poly

/-- The written form of a monomial. -/
def Mono.render (m : Mono Poly) : List Char := renderMono m.coef.render m.exp

instance : ToString Poly := ⟨fun p => String.ofList p.render⟩

end PolyCalc
