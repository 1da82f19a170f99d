import PolyCalc.Poly.Parser

set_option autoImplicit false

/-! # Commands of the calculator

A command is a keyword, and for three of them one space and an argument: a natural number below
`2 ^ 64` for `DEG_BY` and `COMPOSE`, a coefficient for `AT`. -/

namespace PolyCalc

/-! ## Keywords -/

/-- The words that commands begin with. -/
inductive Keyword where
  | zero | isConstant | isZero | clone | add | mul | neg | sub | isEq | degree | degreeIn | evalAt
  | print | pop | compose
  deriving DecidableEq

namespace Keyword

/-- All keywords. -/
def all : List Keyword :=
  [zero, isConstant, isZero, clone, add, mul, neg, sub, isEq, degree, degreeIn, evalAt, print, pop,
    compose]

/-- The keyword as it is typed. -/
def word : Keyword → List Char
  | zero => "ZERO".toList
  | isConstant => "IS_COEFF".toList
  | isZero => "IS_ZERO".toList
  | clone => "CLONE".toList
  | add => "ADD".toList
  | mul => "MUL".toList
  | neg => "NEG".toList
  | sub => "SUB".toList
  | isEq => "IS_EQ".toList
  | degree => "DEG".toList
  | degreeIn => "DEG_BY".toList
  | evalAt => "AT".toList
  | print => "PRINT".toList
  | pop => "POP".toList
  | compose => "COMPOSE".toList

/-- The name of the keyword in log records. -/
def title : Keyword → String
  | zero => "Zero"
  | isConstant => "IsCoeff"
  | isZero => "IsZero"
  | clone => "Clone"
  | add => "Add"
  | mul => "Mul"
  | neg => "Neg"
  | sub => "Sub"
  | isEq => "IsEq"
  | degree => "Deg"
  | degreeIn => "DegBy"
  | evalAt => "At"
  | print => "Print"
  | pop => "Pop"
  | compose => "Compose"

/-- Whether the keyword has an argument. -/
def takesArgument : Keyword → Bool
  | degreeIn | evalAt | compose => true
  | _ => false

/-- The keyword that is typed as the given word. -/
def ofWord? (w : List Char) : Option Keyword := all.find? (fun k => k.word = w)

end Keyword

/-! ## Commands -/

/-- A command with its argument. -/
inductive Command where
  | zero | isConstant | isZero | clone | add | mul | neg | sub | isEq | degree
  | degreeIn (k : UInt64)
  | evalAt (x : Int64)
  | print | pop
  | compose (k : UInt64)
  deriving DecidableEq

namespace Command

/-- The keyword of a command. -/
def keyword : Command → Keyword
  | zero => .zero
  | isConstant => .isConstant
  | isZero => .isZero
  | clone => .clone
  | add => .add
  | mul => .mul
  | neg => .neg
  | sub => .sub
  | isEq => .isEq
  | degree => .degree
  | degreeIn _ => .degreeIn
  | evalAt _ => .evalAt
  | print => .print
  | pop => .pop
  | compose _ => .compose

/-- The numeral of the argument of a command. -/
def argument? : Command → Option (List Char)
  | degreeIn k => some (Text.writeNat k.toNat)
  | evalAt x => some (Text.writeInt x.toInt)
  | compose k => some (Text.writeNat k.toNat)
  | _ => none

/-- The written form of a command. -/
def render (c : Command) : List Char :=
  match c.argument? with
  | none => c.keyword.word
  | some arg => c.keyword.word ++ ' ' :: arg

/-- The form of a command in log records. -/
def describe (c : Command) : String :=
  match c.argument? with
  | none => c.keyword.title
  | some arg => c.keyword.title ++ "(" ++ String.ofList arg ++ ")"

end Command

/-! ## Errors -/

/-- Why a line of a script fails. -/
inductive CommandError where
  /-- The command needs more operands than the stack has. -/
  | stackUnderflow
  /-- There is no such keyword, or an argument where none is due. -/
  | wrongCommand
  /-- The argument of `DEG_BY` is missing or no index. -/
  | wrongVariable
  /-- The argument of `AT` is missing or no coefficient. -/
  | wrongValue
  /-- The argument of `COMPOSE` is missing or no count. -/
  | wrongParameter
  /-- The line is neither a command nor a polynomial. -/
  | wrongPoly (error : ParseError)
  deriving DecidableEq

/-- The wording of an error. -/
def CommandError.message : CommandError → String
  | .stackUnderflow => "STACK UNDERFLOW"
  | .wrongCommand => "WRONG COMMAND"
  | .wrongVariable => "DEG BY WRONG VARIABLE"
  | .wrongValue => "AT WRONG VALUE"
  | .wrongParameter => "COMPOSE WRONG PARAMETER"
  | .wrongPoly _ => "WRONG POLY"

/-- The error of a keyword whose argument is missing or wrong. -/
def Keyword.badArgument : Keyword → CommandError
  | .degreeIn => .wrongVariable
  | .evalAt => .wrongValue
  | .compose => .wrongParameter
  | _ => .wrongCommand

/-! ## Reading commands -/

/-- What stands before the first space of a line, and what stands after it if there is one. -/
def splitAtSpace : List Char → List Char × Option (List Char)
  | [] => ([], none)
  | c :: cs =>
    if c = ' ' then ([], some cs) else (c :: (splitAtSpace cs).1, (splitAtSpace cs).2)

/-- Reads a natural number below `2 ^ 64`. -/
def readIndex? (cs : List Char) : Option UInt64 :=
  match Text.readNat cs with
  | .ok n => if n < UInt64.size then some (UInt64.ofNat n) else none
  | .error _ => none

/-- Reads the argument of a keyword, or the lack of one. -/
def Keyword.command? : Keyword → Option (List Char) → Option Command
  | zero, none => some .zero
  | isConstant, none => some .isConstant
  | isZero, none => some .isZero
  | clone, none => some .clone
  | add, none => some .add
  | mul, none => some .mul
  | neg, none => some .neg
  | sub, none => some .sub
  | isEq, none => some .isEq
  | degree, none => some .degree
  | degreeIn, some arg => (readIndex? arg).map .degreeIn
  | evalAt, some arg => (readCoefficient arg).toOption.map .evalAt
  | print, none => some .print
  | pop, none => some .pop
  | compose, some arg => (readIndex? arg).map .compose
  | _, _ => none

/-- Reads a command from a line. -/
def Command.parse (line : List Char) : Except CommandError Command :=
  let (name, arg) := splitAtSpace line
  match Keyword.ofWord? name with
  | none => .error .wrongCommand
  | some keyword =>
    match keyword.command? arg with
    | none => .error keyword.badArgument
    | some command => .ok command

end PolyCalc
