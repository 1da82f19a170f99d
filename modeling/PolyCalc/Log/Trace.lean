import PolyCalc.Calculator.Script
import PolyCalc.Log.Record
import PolyCalc.Text.Quoted

set_option autoImplicit false

/-! # What is logged

The records of each activity, in the order in which they arise. They depend on the same inputs as
the activity itself, which knows nothing of them. -/

namespace PolyCalc

/-! ## Reading polynomials -/

/-- A fault as it is described in log records. -/
def ParseFault.describe (fault : ParseFault) : String :=
  let quotedDetail := String.ofList (Text.quoted fault.detail.toList)
  match fault with
  | .malformed _ => "Syntax(" ++ quotedDetail ++ ")"
  | .outOfRange _ _ => "Range(" ++ quotedDetail ++ ")"
  | .tooDeep _ => "NestingTooDeep(" ++ fault.detail ++ ")"

/-- The record of reading a polynomial. -/
def Poly.parseRecord (depthLimit : Nat) (cs : List Char) (line : Nat) : LogRecord :=
  let place := "line " ++ toString line ++ ": "
  match Poly.parse depthLimit cs line with
  | .ok p => ⟨.debug, place ++ "parsed polynomial of depth " ++ toString p.depth⟩
  | .error e =>
    ⟨.debug, place ++ "rejected '" ++ String.ofList cs ++ "': " ++ e.fault.describe⟩

/-! ## Substitution -/

namespace Poly

mutual

/-- The sums that a substitution enters, each with its number of monomials and the number of
    replacements that are left for it. -/
def composeVisits : Poly → List Poly → List (Nat × Nat)
  | .coeff _, _ => []
  | .sum ms, qs => (ms.length, qs.length) :: composeVisitsMonos ms qs

/-- The sums that a substitution enters below the monomials of a list. -/
def composeVisitsMonos : List (Mono Poly) → List Poly → List (Nat × Nat)
  | [], _ => []
  | ⟨p, e⟩ :: ms, qs =>
    (match qs with
      | _ :: rest => composeVisits p rest
      | [] => if e = 0 then composeVisits p [] else []) ++ composeVisitsMonos ms qs

end

/-- The records of a substitution. -/
def composeRecords (p : Poly) (qs : List Poly) : List LogRecord :=
  (composeVisits p qs).map (fun (monos, replacements) =>
    ⟨.trace, "compose: " ++ toString monos ++ " monomials, " ++ toString replacements ++
      " replacements"⟩)

end Poly

/-! ## The calculator -/

namespace Calculator

/-- The records of executing a command. -/
def executeRecords (s : Stack) : Command → List LogRecord
  | .compose k =>
    match composeOperands? s k.toNat with
    | some (p, qs, _) => p.composeRecords qs
    | none => []
  | _ => []

/-- The records of a line. -/
def feedRecords (c : Calculator) (line : List Char) (n : Nat) : List LogRecord :=
  match LineKind.ofLine line with
  | .ignored => []
  | .command =>
    match Command.parse line with
    | .ok command =>
      ⟨.trace, "line " ++ toString n ++ ": " ++ command.describe⟩ ::
        executeRecords c.stack command
    | .error _ => []
  | .literal => [Poly.parseRecord c.depthLimit line n]

/-- The record that a script adds for an outcome: what is wrong with a polynomial. -/
def outcomeRecords : Outcome → List LogRecord
  | .error (.wrongPoly e) => [⟨.debug, e.message⟩]
  | _ => []

/-- The records of feeding lines one after the other. -/
def feedAllRecords (c : Calculator) (n : Nat) : List (List Char) → List LogRecord
  | [] => []
  | line :: lines =>
    let (next, outcome) := c.feed line n
    c.feedRecords line n ++ outcomeRecords outcome ++ feedAllRecords next (n + 1) lines

/-- The records of a script. -/
def runRecords (c : Calculator) (script : List UInt8) : List LogRecord :=
  let t := c.run script
  c.feedAllRecords 1 (scriptLines script) ++
    [⟨.info, "script finished: " ++ toString t.errors.length ++ " error(s), " ++
      toString t.calculator.stack.size ++ " polynomial(s) left on the stack"⟩]

end Calculator

end PolyCalc
