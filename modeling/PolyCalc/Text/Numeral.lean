set_option autoImplicit false

/-! # Decimal numerals

Written without spaces, signs other than a leading `-`, or leading zeros; only the ASCII digits
are digits. -/

namespace PolyCalc.Text

/-- Why a text is no numeral. -/
inductive NumeralFault where
  /-- There is no digit. -/
  | empty
  /-- The first character that is no digit. -/
  | stray (c : Char)
  /-- More than one digit, and the first is `0`. -/
  | leadingZero (digits : List Char)
  deriving DecidableEq

/-- Whether a text has more than one character and begins with `0`. -/
def hasLeadingZero : List Char → Bool
  | c :: _ :: _ => c == '0'
  | _ => false

/-- Reads a natural number. -/
def readNat (cs : List Char) : Except NumeralFault Nat :=
  if cs.isEmpty then .error .empty
  else
    match cs.find? (fun c => !c.isDigit) with
    | some c => .error (.stray c)
    | none => if hasLeadingZero cs then .error (.leadingZero cs) else .ok (Nat.ofDigitChars 10 cs 0)

/-- Reads an integer: a natural number, perhaps after `-`. -/
def readInt : List Char → Except NumeralFault Int
  | '-' :: cs => (readNat cs).map (fun n => -(n : Int))
  | cs => (readNat cs).map (fun n => (n : Int))

/-- Writes a natural number. -/
def writeNat (n : Nat) : List Char := Nat.toDigits 10 n

/-- Writes an integer. -/
def writeInt (i : Int) : List Char :=
  if i < 0 then '-' :: writeNat i.natAbs else writeNat i.natAbs

end PolyCalc.Text
