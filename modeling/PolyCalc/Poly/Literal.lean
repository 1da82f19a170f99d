import PolyCalc.Poly.Fault

set_option autoImplicit false

/-! # Numbers in the text of a polynomial

Coefficients and exponents are numerals within fixed bounds. -/

namespace PolyCalc

/-- Reads a coefficient: an integer that fits into 64 bits with its sign. -/
def readCoefficient (cs : List Char) : Except ParseFault Int64 :=
  match Text.readInt cs with
  | .error fault => .error (.malformed (.numeral .coefficient fault))
  | .ok i =>
    if Int64.minValue.toInt ≤ i ∧ i ≤ Int64.maxValue.toInt then .ok (Int64.ofInt i)
    else .error (.outOfRange .coefficient cs)

/-- The greatest exponent that can be read, which is the greatest that counts as a positive degree:
    `2 ^ 31 - 1`. -/
def maxReadableExponent : Nat := 2147483647

/-- Reads an exponent: a natural number up to `maxReadableExponent`. -/
def readExponent (cs : List Char) : Except ParseFault UInt32 :=
  match Text.readNat cs with
  | .error fault => .error (.malformed (.numeral .exponent fault))
  | .ok n =>
    if n ≤ maxReadableExponent then .ok (UInt32.ofNat n) else .error (.outOfRange .exponent cs)

end PolyCalc
