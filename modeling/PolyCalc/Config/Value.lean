import PolyCalc.Decimal.Shortest

set_option autoImplicit false

/-! # Values in configuration documents

A value is a word, which is read as an integer, a floating-point number, a truth value or a
string: the first of these whose form it has. -/

namespace PolyCalc.Config

/-- A typed value. -/
inductive Value where
  | string (s : List Char)
  | float (x : Binary64)
  | integer (i : Int64)
  | boolean (b : Bool)
  deriving DecidableEq

/-! ## Numbers -/

/-- Takes a sign off, and tells whether it was a minus. -/
def takeSign : List Char → Bool × List Char
  | '-' :: cs => (true, cs)
  | '+' :: cs => (false, cs)
  | cs => (false, cs)

/-- Reads digits, at least one; leading zeros are allowed. -/
def readDigits? (cs : List Char) : Option Nat :=
  if !cs.isEmpty && cs.all Char.isDigit then some (Nat.ofDigitChars 10 cs 0) else none

/-- Reads an integer with an optional sign that fits into 64 bits. -/
def readInteger? (w : List Char) : Option Int64 :=
  let (negative, digits) := takeSign w
  match readDigits? digits with
  | none => none
  | some n =>
    let i : Int := if negative then -(n : Int) else n
    if Int64.minValue.toInt ≤ i ∧ i ≤ Int64.maxValue.toInt then some (Int64.ofInt i) else none

/-- Reads an exponent: nothing, or `e` and an integer. -/
def readExponentPart? : List Char → Option Int
  | [] => some 0
  | c :: cs =>
    if c = 'e' ∨ c = 'E' then
      let (negative, digits) := takeSign cs
      (readDigits? digits).map (fun (n : Nat) => if negative then -(n : Int) else (n : Int))
    else none

/-- Reads an unsigned decimal: digits around an optional point, at least one, and an optional
    exponent. -/
def readDecimal? (cs : List Char) : Option Binary64 :=
  let whole := cs.takeWhile Char.isDigit
  let rest := cs.dropWhile Char.isDigit
  let (fraction, rest) :=
    match rest with
    | '.' :: rest => (rest.takeWhile Char.isDigit, rest.dropWhile Char.isDigit)
    | _ => ([], rest)
  if whole.isEmpty && fraction.isEmpty then none
  else
    (readExponentPart? rest).map (fun e =>
      Binary64.ofDecimal (Nat.ofDigitChars 10 (whole ++ fraction) 0) (e - fraction.length))

/-- Reads a floating-point number with an optional sign; the words for infinity and for no number
    may be in capitals. -/
def readFloat? (w : List Char) : Option Binary64 :=
  let (negative, cs) := takeSign w
  let lower := cs.map Char.toLower
  let x? :=
    if lower = "inf".toList ∨ lower = "infinity".toList then some Binary64.infinity
    else if lower = "nan".toList then some Binary64.nan
    else readDecimal? cs
  x?.map (fun x => if negative then x.neg else x)

/-- Reads `true` or `false`. -/
def readBoolean? (w : List Char) : Option Bool :=
  if w = "true".toList then some true else if w = "false".toList then some false else none

/-! ## Words -/

/-- The value that a word stands for. -/
def Value.ofWord (w : List Char) : Value :=
  match readInteger? w with
  | some i => .integer i
  | none =>
    match readFloat? w with
    | some x => .float x
    | none =>
      match readBoolean? w with
      | some b => .boolean b
      | none => .string w

/-- The text of a value. -/
def Value.render : Value → List Char
  | .string s => s
  | .float x => x.render
  | .integer i => Text.writeInt i.toInt
  | .boolean true => "true".toList
  | .boolean false => "false".toList

/-- The name of the type of a value. -/
def Value.typeName : Value → String
  | .string _ => "string"
  | .float _ => "float"
  | .integer _ => "integer"
  | .boolean _ => "boolean"

end PolyCalc.Config
