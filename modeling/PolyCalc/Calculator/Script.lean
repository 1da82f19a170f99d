import PolyCalc.Calculator.Machine
import PolyCalc.Text.Lines
import PolyCalc.Text.Utf8

set_option autoImplicit false

/-! # Scripts

A script is a sequence of bytes, read as lines of UTF-8 that end in a line feed or in a carriage
return and a line feed. Lines are numbered from one. What a line prints goes to one stream, its
error to another, and the script goes on after it. -/

namespace PolyCalc

namespace Calculator

/-- The lines of a script. A malformed stretch of bytes becomes a replacement character. -/
def scriptLines (bytes : List UInt8) : List (List Char) :=
  (Text.splitLines 10 bytes).map (fun bs => Text.dropFinal '\r' (Text.decodeUtf8Lossy bs))

/-- Feeds lines one after the other, the first one with the number `n`; each outcome comes with
    the number of its line. -/
def feedAll (c : Calculator) (n : Nat) : List (List Char) → Calculator × List (Nat × Outcome)
  | [] => (c, [])
  | line :: lines =>
    let (next, outcome) := c.feed line n
    let (last, outcomes) := feedAll next (n + 1) lines
    (last, (n, outcome) :: outcomes)

end Calculator

/-- What a script leaves behind: the calculator after it, the lines that it printed, and its errors
    with their line numbers. -/
structure Transcript where
  calculator : Calculator
  outputs : List (List Char)
  errors : List (Nat × CommandError)

namespace Transcript

/-- Collects the outcomes of numbered lines. -/
def ofOutcomes (calculator : Calculator) (outcomes : List (Nat × Outcome)) : Transcript :=
  { calculator
    outputs := outcomes.filterMap (fun (_, outcome) => outcome.toOption.join)
    errors := outcomes.filterMap (fun (n, outcome) =>
      match outcome with
      | .error e => some (n, e)
      | .ok _ => none) }

/-- The report of an error. -/
def errorLine (n : Nat) (e : CommandError) : String :=
  "ERROR " ++ toString n ++ " " ++ e.message

/-- The reports of all errors. -/
def errorLines (t : Transcript) : List String := t.errors.map (fun (n, e) => errorLine n e)

/-- All that was printed, each line with a line feed. -/
def stdout (t : Transcript) : String :=
  String.ofList (t.outputs.flatMap (fun line => line ++ ['\n']))

/-- All error reports, each with a line feed. -/
def stderr (t : Transcript) : String :=
  String.join (t.errorLines.map (fun line => line ++ "\n"))

end Transcript

/-- Runs a script. -/
def Calculator.run (c : Calculator) (script : List UInt8) : Transcript :=
  let (last, outcomes) := c.feedAll 1 (scriptLines script)
  Transcript.ofOutcomes last outcomes

end PolyCalc
