import PolyCalc.Poly.Parser
import PolyCalc.Text.Matching

set_option autoImplicit false

/-! # Reading polynomials by offsets

The same reader as in `PolyCalc.Poly.Parser`, written for a text of bytes: it looks for the offsets
of brackets and separators and cuts the text there. A cut that is not possible traps, and so does a
length without its last byte if there is none.

A monomial begins with a bracket, and the reader looks for the one that closes it. What it does if
there is none is left open here (`unmatched`). -/

namespace PolyCalc

namespace ByOffset

open Text

/-- Reading that ends with a value or a fault, unless a step of it traps. -/
abbrev Guarded (α : Type) := ExceptT ParseFault (Except Trap) α

/-- Reads what stands between the brackets of a monomial: a coefficient, which is read by
    `readCoef`, and an exponent. -/
def parseParts (readCoef : List Char → Guarded Poly) (piece inner : List Char) :
    Guarded (Mono Poly) :=
  match separatorOffsets ',' inner with
  | [comma] => do
    let coefText ← checkedSlice inner 0 comma
    let p ← readCoef coefText
    let expText ← checkedDrop inner (comma + 1)
    let e ← MonadExcept.ofExcept (readExponent expText)
    return ⟨p, e⟩
  | [] => throw (.malformed (.noComma piece))
  | _ => throw (.malformed (.manyCommas piece))

/-- Reads one monomial. -/
def parseMono (unmatched : Guarded (Mono Poly)) (readCoef : List Char → Guarded Poly)
    (piece : List Char) : Guarded (Mono Poly) :=
  if piece = [] then throw (.malformed .emptyMono)
  else if piece.head? ≠ some '(' then throw (.malformed (.noBracket piece))
  else do
    let some close ← findClosing piece 0 | unmatched
    let last ← checkedSub (byteLength piece) 1
    if close ≠ last then
      let rest ← checkedDrop piece (close + 1)
      throw (.malformed (.afterMono rest))
    else
      let inner ← checkedSlice piece 1 close
      parseParts readCoef piece inner

/-- Reads a polynomial with at most `levels` more nested sums out of a limit. -/
def parseWithin (unmatched : Guarded (Mono Poly)) (limit levels : Nat) (cs : List Char) :
    Guarded Poly :=
  if cs.head? = some '(' then
    match levels with
    | 0 => throw (.tooDeep limit)
    | levels + 1 => do
      let some pieces ← checkedSplit '+' cs | throw (.malformed .unbalanced)
      let ms ← pieces.mapM (parseMono unmatched (parseWithin unmatched limit levels))
      return Poly.ofMonos ms
  else do
    let c ← MonadExcept.ofExcept (readCoefficient cs)
    return .coeff c

/-- Reads a polynomial with at most `depthLimit` nested sums; errors name the given line. -/
def parse (unmatched : Guarded (Mono Poly)) (depthLimit : Nat) (cs : List Char) (line : Nat) :
    Except Trap (Except ParseError Poly) := do
  let result ← (parseWithin unmatched depthLimit depthLimit cs).run
  return result.mapError (fun fault => ⟨line, fault⟩)

end ByOffset

end PolyCalc
