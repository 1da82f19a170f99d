set_option autoImplicit false

/-! # Double-precision numbers

A number is given by its 64 bits. The bits of a finite magnitude are, as a natural number,
`s · 2 ^ 52 + m` where the magnitude is `m · 2 ^ s` units of `2 ^ -1074`; either `s = 0` and
`m < 2 ^ 53`, or `2 ^ 52 ≤ m < 2 ^ 53`. -/

namespace PolyCalc

/-- A double-precision number: sign and bits of the magnitude. -/
structure Binary64 where
  negative : Bool
  magnitude : Nat
  deriving DecidableEq

namespace Binary64

/-- The number of significands of one exponent, `2 ^ 52`. -/
def binade : Nat := 0x10000000000000

/-- The bits of infinity. -/
def infinityBits : Nat := 0x7FF * binade

/-- Zero. -/
def zero : Binary64 := ⟨false, 0⟩

/-- Infinity. -/
def infinity : Binary64 := ⟨false, infinityBits⟩

/-- The value that is no number. -/
def nan : Binary64 := ⟨false, infinityBits + binade / 2⟩

/-- The value with the sign turned. -/
def neg (x : Binary64) : Binary64 := { x with negative := !x.negative }

/-! ## Rounding -/

/-- The quotient rounded to the nearest natural number, a half to the even one. -/
def roundQuotient (num den : Nat) : Nat :=
  let q := num / den
  let r := num % den
  if 2 * r < den then q
  else if den < 2 * r then q + 1
  else if q % 2 = 0 then q else q + 1

/-- The number nearest to `num / den`, where a tie goes to the even one and what is too large goes
    to infinity. -/
def ofRatio (num den : Nat) : Binary64 :=
  let units := num * Nat.pow 2 1074
  let s := (units / den).log2 - 52
  let bits := s * binade + roundQuotient units (den * Nat.pow 2 s)
  ⟨false, min bits infinityBits⟩

/-- The number nearest to `n · 10 ^ e`. Exponents so far out that only zero or infinity can result
    are not computed with. -/
def ofDecimal (n : Nat) (e : Int) : Binary64 :=
  let digits : Int := (Nat.toDigits 10 n).length
  if n = 0 then zero
  else if 400 < digits + e then infinity
  else if digits + e < -400 then zero
  else if 0 ≤ e then ofRatio (n * Nat.pow 10 e.toNat) 1
  else ofRatio n (Nat.pow 10 (-e).toNat)

end Binary64

end PolyCalc
