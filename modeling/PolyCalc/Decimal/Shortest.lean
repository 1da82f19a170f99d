import PolyCalc.Decimal.Binary64
import PolyCalc.Text.Numeral

set_option autoImplicit false

/-! # The fewest digits that read back

A finite number other than zero is written as the decimal `n · 10 ^ e` with the largest `e` for
which one lies among the reals that round to the number; of several such decimals the nearest to
the number is taken, and of two equally near ones the larger. -/

namespace PolyCalc

/-- A natural number times a power of ten. -/
structure Scientific where
  coef : Nat
  exp : Int
  deriving DecidableEq

namespace Binary64

/-- A value between the ends of an interval, all as multiples of one unit. The ends belong to the
    interval if it is closed. -/
structure Interval where
  low : Nat
  value : Nat
  high : Nat
  closed : Bool

namespace Interval

/-- Whether `n / d` lies in the interval. -/
def contains (i : Interval) (n d : Nat) : Bool :=
  if i.closed then i.low * d ≤ n && n ≤ i.high * d else i.low * d < n && n < i.high * d

/-- The multiple of `step / d` in the interval that is nearest to its value, if there is one. -/
def nearestMultiple? (i : Interval) (step d : Nat) : Option Nat :=
  let k := i.value * d / step
  let below := i.value * d - k * step
  let above := (k + 1) * step - i.value * d
  match decide (0 < k) && i.contains (k * step) d, i.contains ((k + 1) * step) d with
  | true, true => some (if below < above then k else k + 1)
  | true, false => some k
  | false, true => some (k + 1)
  | false, false => none

end Interval

/-- The reals that round to a magnitude, in units of `2 ^ -1076`. The end below a power of two is
    half as far away as the other one. -/
def rounding (magnitude : Nat) : Interval :=
  let s := magnitude / binade - 1
  let m := magnitude - s * binade
  let quarter := Nat.pow 2 s
  let value := 4 * m * quarter
  let low := if 0 < s ∧ m = binade then value - quarter else value - 2 * quarter
  ⟨low, value, value + 2 * quarter, m % 2 = 0⟩

/-- Searches the multiples of `10 ^ top`, `10 ^ (top - 1)`, …, for the given number of powers. -/
def searchShortest (i : Interval) (top : Int) : Nat → Option Scientific
  | 0 => none
  | fuel + 1 =>
    let step := Nat.pow 2 1076 * Nat.pow 10 top.toNat
    match i.nearestMultiple? step (Nat.pow 10 (-top).toNat) with
    | some k => some ⟨k, top⟩
    | none => searchShortest i (top - 1) fuel

/-- The shortest decimal for a magnitude other than zero and infinity. All of them lie between
    `10 ^ -324` and `10 ^ 309`. -/
def shortest (magnitude : Nat) : Scientific :=
  (searchShortest (rounding magnitude) 309 700).getD ⟨0, 0⟩

end Binary64

/-! ## Writing without an exponent -/

/-- Writes a decimal with all its places. -/
def Scientific.render (x : Scientific) : List Char :=
  let digits := Text.writeNat x.coef
  if 0 ≤ x.exp then digits ++ List.replicate x.exp.toNat '0'
  else
    let places := (-x.exp).toNat
    if places < digits.length then
      digits.take (digits.length - places) ++ '.' :: digits.drop (digits.length - places)
    else '0' :: '.' :: List.replicate (places - digits.length) '0' ++ digits

/-- Writes a number with the fewest digits that read back and without an exponent. Whole numbers
    have no point, and zero keeps its sign. -/
def Binary64.render (x : Binary64) : List Char :=
  if Binary64.infinityBits < x.magnitude then "NaN".toList
  else
    (if x.negative then ['-'] else []) ++
      (if x.magnitude = Binary64.infinityBits then "inf".toList
      else if x.magnitude = 0 then ['0']
      else (Binary64.shortest x.magnitude).render)

end PolyCalc
