import PolyCalc.Calculator.Command
import PolyCalc.Calculator.Stack
import PolyCalc.Poly.Degree
import PolyCalc.Poly.Printer
import PolyCalc.Poly.Substitution

set_option autoImplicit false

/-! # The stack calculator

The calculator works line by line. An empty line and a line that begins with `#` do nothing, a
line that begins with an ASCII letter is a command, and any other line is a polynomial to be
pushed. A command takes its operands from the stack and puts its result there, or prints one line.
A line that fails changes nothing. -/

namespace PolyCalc

/-- A calculator: its stack, and the limit of nested sums in the polynomials it reads. -/
structure Calculator where
  stack : Stack
  depthLimit : Nat

/-- What comes of a line: an error, or the text that it prints, if any. -/
abbrev Outcome := Except CommandError (Option (List Char))

namespace Calculator

/-- A calculator with an empty stack. -/
def new (depthLimit : Nat) : Calculator := ⟨.empty, depthLimit⟩

/-! ## Commands -/

/-- The text of a truth value. -/
def flag (b : Bool) : List Char := if b then ['1'] else ['0']

/-- The stack after a command, and what the command prints. -/
abbrev Step := Except CommandError (Stack × Option (List Char))

/-- Prints something about the topmost polynomial. -/
def inspect (s : Stack) (view : Poly → List Char) : Step :=
  match s.top? with
  | some p => .ok (s, some (view p))
  | none => .error .stackUnderflow

/-- Replaces the topmost polynomial. -/
def unary (s : Stack) (f : Poly → Poly) : Step :=
  match s.pop? with
  | some (p, rest) => .ok (rest.push (f p), none)
  | none => .error .stackUnderflow

/-- Replaces the two topmost polynomials by one; the topmost is the first operand. -/
def binary (s : Stack) (f : Poly → Poly → Poly) : Step :=
  match s.popTwo? with
  | some (p, q, rest) => .ok (rest.push (f p q), none)
  | none => .error .stackUnderflow

/-- The polynomial and the replacements that `COMPOSE k` takes, and the stack without them. -/
def composeOperands? (s : Stack) (k : Nat) : Option (Poly × List Poly × Stack) :=
  match s.pop? with
  | some (p, rest) => (rest.popMany? k).map (fun (qs, below) => (p, qs, below))
  | none => none

/-- Executes a command. -/
def execute (s : Stack) : Command → Step
  | .zero => .ok (s.push .zero, none)
  | .isConstant => inspect s (fun p => flag p.isConstant)
  | .isZero => inspect s (fun p => flag p.isZero)
  | .clone =>
    match s.top? with
    | some p => .ok (s.push p, none)
    | none => .error .stackUnderflow
  | .add => binary s Poly.add
  | .mul => binary s Poly.mul
  | .neg => unary s Poly.neg
  | .sub => binary s Poly.sub
  | .isEq =>
    match s.topTwo? with
    | some (p, q) => .ok (s, some (flag (p = q)))
    | none => .error .stackUnderflow
  | .degree => inspect s (fun p => Text.writeInt p.degree.toInt)
  | .degreeIn k => inspect s (fun p => Text.writeInt (p.degreeIn k.toNat).toInt)
  | .evalAt x => unary s (Poly.evalFirst x)
  | .print => inspect s Poly.render
  | .pop =>
    match s.pop? with
    | some (_, rest) => .ok (rest, none)
    | none => .error .stackUnderflow
  | .compose k =>
    match composeOperands? s k.toNat with
    | some (p, qs, below) => .ok (below.push (p.compose qs), none)
    | none => .error .stackUnderflow

/-! ## Lines -/

/-- What a line is, by its first character. -/
inductive LineKind where
  | ignored
  | command
  | literal
  deriving DecidableEq

/-- Classifies a line. -/
def LineKind.ofLine : List Char → LineKind
  | [] => .ignored
  | c :: _ => if c = '#' then .ignored else if c.isAlpha then .command else .literal

/-- The stack after a line, and what the line prints; `n` is the number of the line. -/
def step (c : Calculator) (line : List Char) (n : Nat) : Step :=
  match LineKind.ofLine line with
  | .ignored => .ok (c.stack, none)
  | .command =>
    match Command.parse line with
    | .ok command => execute c.stack command
    | .error e => .error e
  | .literal =>
    match Poly.parse c.depthLimit line n with
    | .ok p => .ok (c.stack.push p, none)
    | .error e => .error (.wrongPoly e)

/-- Feeds a line to the calculator; a line that fails leaves it as it was. -/
def feed (c : Calculator) (line : List Char) (n : Nat) : Calculator × Outcome :=
  match c.step line n with
  | .ok (stack, output) => ({ c with stack }, .ok output)
  | .error e => (c, .error e)

end Calculator

end PolyCalc
