import PolyCalc.Text.Printable

set_option autoImplicit false

/-! # Quoted text

A text between double quotes in which quotes, backslashes and control characters are escaped:
`\"`, `\\`, `\t`, `\n`, `\r`, `\0`, and `\u{…}` with the hexadecimal code point of any other
character that has no visible form. -/

namespace PolyCalc.Text

/-- The form of a character between quotes. -/
def escapeChar (c : Char) : List Char :=
  if c = '\x00' then ['\\', '0']
  else if c = '\t' then ['\\', 't']
  else if c = '\r' then ['\\', 'r']
  else if c = '\n' then ['\\', 'n']
  else if c = '\\' ∨ c = '"' then ['\\', c]
  else if isPrintable c then [c]
  else ['\\', 'u', '{'] ++ Nat.toDigits 16 c.toNat ++ ['}']

/-- A text in quotes. -/
def quoted (cs : List Char) : List Char :=
  '"' :: cs.flatMap escapeChar ++ ['"']

end PolyCalc.Text
