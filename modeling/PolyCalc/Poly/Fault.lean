import PolyCalc.Text.Numeral

set_option autoImplicit false

/-! # Faults in the text of a polynomial

What can be wrong with a text that is to be read as a polynomial: its form, the size of a number,
or the depth of its nesting. A fault is a cause; its wording is written in one place. -/

namespace PolyCalc

/-! ## Causes -/

/-- A number is written as a coefficient or as an exponent. -/
inductive LiteralKind where
  | coefficient
  | exponent
  deriving DecidableEq

/-- How a text fails to have the form of a polynomial. -/
inductive FormFault where
  /-- The brackets are not balanced. -/
  | unbalanced
  /-- Nothing stands where a monomial is due. -/
  | emptyMono
  /-- A monomial does not begin with a bracket. -/
  | noBracket (piece : List Char)
  /-- Something follows the bracket that closes a monomial. -/
  | afterMono (rest : List Char)
  /-- A monomial has no exponent. -/
  | noComma (piece : List Char)
  /-- A monomial has more than two parts. -/
  | manyCommas (piece : List Char)
  /-- A number is no numeral. -/
  | numeral (kind : LiteralKind) (fault : Text.NumeralFault)
  deriving DecidableEq

/-- Why a text is not read as a polynomial. -/
inductive ParseFault where
  /-- The text does not have the form of a polynomial. -/
  | malformed (fault : FormFault)
  /-- A numeral stands for a number that is too large. -/
  | outOfRange (kind : LiteralKind) (text : List Char)
  /-- Sums are nested deeper than `limit` levels. -/
  | tooDeep (limit : Nat)
  deriving DecidableEq

/-- A fault and the number of the line in which it was found. -/
structure ParseError where
  line : Nat
  fault : ParseFault
  deriving DecidableEq

/-! ## Wording -/

/-- The name of a kind of number. -/
def LiteralKind.name : LiteralKind → String
  | .coefficient => "coefficient"
  | .exponent => "exponent"

/-- The wording of a fault of form. -/
def FormFault.message : FormFault → String
  | .unbalanced => "unbalanced parentheses"
  | .emptyMono => "empty monomial"
  | .noBracket piece => "monomial '" ++ String.ofList piece ++ "' must start with '('"
  | .afterMono rest => "unexpected '" ++ String.ofList rest ++ "' after monomial"
  | .noComma piece => "missing ',' in monomial '" ++ String.ofList piece ++ "'"
  | .manyCommas piece => "too many ',' in monomial '" ++ String.ofList piece ++ "'"
  | .numeral kind .empty => "empty " ++ kind.name
  | .numeral kind (.stray c) => "unexpected '" ++ String.ofList [c] ++ "' in " ++ kind.name
  | .numeral kind (.leadingZero digits) =>
    "leading zero in " ++ kind.name ++ " '" ++ String.ofList digits ++ "'"

/-- What a fault is about, without saying of which sort it is. -/
def ParseFault.detail : ParseFault → String
  | .malformed fault => fault.message
  | .outOfRange kind text => kind.name ++ " " ++ String.ofList text
  | .tooDeep limit => toString limit

/-- The wording of a fault. -/
def ParseFault.message (fault : ParseFault) : String :=
  match fault with
  | .malformed _ => "syntax error: " ++ fault.detail
  | .outOfRange _ _ => "out of range: " ++ fault.detail
  | .tooDeep _ => "polynomial nests deeper than " ++ fault.detail ++ " levels"

/-- The wording of a fault together with its line. -/
def ParseError.message (e : ParseError) : String :=
  "line " ++ toString e.line ++ ": " ++ e.fault.message

end PolyCalc
