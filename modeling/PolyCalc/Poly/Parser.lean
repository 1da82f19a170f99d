import PolyCalc.Poly.Arithmetic
import PolyCalc.Poly.Literal
import PolyCalc.Text.Brackets

set_option autoImplicit false

/-! # Reading polynomials

A polynomial is written as a coefficient, or as monomials joined by `+`, where a monomial is
`(p,e)` with a polynomial `p` and an exponent `e`. Reading is strict: no spaces, no leading zeros,
and at most a given number of nested sums. The result is in canonical form.

Of several faults the first in this order is reported: nesting, balance of brackets, then the
monomials from left to right, and within one its shape, its coefficient, its exponent. -/

namespace PolyCalc

namespace Poly

/-- Reads one monomial, whose coefficient is read by `readCoef`. -/
def parseMono (readCoef : List Char → Except ParseFault Poly) (piece : List Char) :
    Except ParseFault (Mono Poly) :=
  match piece with
  | [] => .error (.malformed .emptyMono)
  | c :: cs =>
    if c ≠ '(' then .error (.malformed (.noBracket piece))
    else
      match Text.splitAtClose 0 cs with
      | none => .error (.malformed .unbalanced)
      | some (_, r :: rest) => .error (.malformed (.afterMono (r :: rest)))
      | some (inner, []) =>
        match Text.pieces ',' inner with
        | [coefText, expText] => do
          let p ← readCoef coefText
          let e ← readExponent expText
          .ok ⟨p, e⟩
        | _ :: _ :: _ => .error (.malformed (.manyCommas piece))
        | _ => .error (.malformed (.noComma piece))

/-- Reads a list of monomials up to the first fault. -/
def parseMonos (readCoef : List Char → Except ParseFault Poly) :
    List (List Char) → Except ParseFault (List (Mono Poly))
  | [] => .ok []
  | piece :: pieces => do
    let m ← parseMono readCoef piece
    let ms ← parseMonos readCoef pieces
    .ok (m :: ms)

/-- Reads a polynomial with at most `levels` more nested sums out of a limit. -/
def parseWithin (limit : Nat) : (levels : Nat) → List Char → Except ParseFault Poly
  | levels, cs =>
    if cs.head? = some '(' then
      match levels with
      | 0 => .error (.tooDeep limit)
      | levels + 1 =>
        match Text.splitOutside? '+' cs with
        | none => .error (.malformed .unbalanced)
        | some pieces => (parseMonos (parseWithin limit levels) pieces).map ofMonos
    else (readCoefficient cs).map .coeff

end Poly

/-! ## Lines -/

/-- The limit of nested sums that readers use unless told otherwise. -/
def defaultDepthLimit : Nat := 512

/-- Reads a polynomial with at most `depthLimit` nested sums; errors name the given line. -/
def Poly.parse (depthLimit : Nat) (cs : List Char) (line : Nat) : Except ParseError Poly :=
  (Poly.parseWithin depthLimit depthLimit cs).mapError (fun fault => ⟨line, fault⟩)

end PolyCalc
