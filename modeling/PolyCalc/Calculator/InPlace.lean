import PolyCalc.Calculator.Machine

set_option autoImplicit false

/-! # The calculator in place

The same commands and lines as in `PolyCalc.Calculator.Machine`, written for one stack that is
changed in place. What was taken from it is gone for good, also when a command fails later: so a
command has to see that it lacks operands before it takes the first one. -/

namespace PolyCalc

namespace InPlace

/-! ## The stack -/

/-- Puts a polynomial on top. -/
def push (p : Poly) : StateM Stack Unit := modify (fun s => s.push p)

/-- Takes the topmost polynomial off. -/
def pop : StateM Stack (Option Poly) := do
  match (← get).pop? with
  | some (p, rest) => set rest; return some p
  | none => return none

/-- The topmost polynomial. -/
def top : StateM Stack (Option Poly) := return (← get).top?

/-- The two topmost polynomials, the topmost first. -/
def topTwo : StateM Stack (Option (Poly × Poly)) := return (← get).topTwo?

/-- Takes the two topmost polynomials off one by one, the topmost first. -/
def popTwo : StateM Stack (Option (Poly × Poly)) := do
  if (← get).size < 2 then return none
  let some p ← pop | return none
  let some q ← pop | return none
  return some (p, q)

/-- Takes the `k` topmost polynomials off, the topmost last. -/
def popMany (k : Nat) : StateM Stack (Option (List Poly)) := do
  match (← get).popMany? k with
  | some (ps, rest) => set rest; return some ps
  | none => return none

/-! ## Commands -/

/-- What changes the stack and may fail on the way; a failure does not undo the changes. -/
abbrev Action (α : Type) := ExceptT CommandError (StateM Stack) α

/-- The result of an action on a stack, and the stack that it leaves. -/
def Action.on {α : Type} (action : Action α) (s : Stack) : Except CommandError α × Stack :=
  action.run.run s

/-- What is needed from the stack, or an error if there is too little. -/
def need {α : Type} (take : StateM Stack (Option α)) : Action α := do
  match ← take with
  | some a => return a
  | none => throw .stackUnderflow

/-- Executes a command and gives what it prints, if anything. -/
def perform : Command → Action (Option (List Char))
  | .zero => do
    push .zero
    return none
  | .isConstant => return some (Calculator.flag (← need top).isConstant)
  | .isZero => return some (Calculator.flag (← need top).isZero)
  | .clone => do
    push (← need top)
    return none
  | .add => do
    let (p, q) ← need popTwo
    push (p.add q)
    return none
  | .mul => do
    let (p, q) ← need popTwo
    push (p.mul q)
    return none
  | .neg => do
    let p ← need pop
    push p.neg
    return none
  | .sub => do
    let (p, q) ← need popTwo
    push (p.sub q)
    return none
  | .isEq => do
    let (p, q) ← need topTwo
    return some (Calculator.flag (p = q))
  | .degree => return some (Text.writeInt (← need top).degree.toInt)
  | .degreeIn k => return some (Text.writeInt ((← need top).degreeIn k.toNat).toInt)
  | .evalAt x => do
    let p ← need pop
    push (p.evalFirst x)
    return none
  | .print => return some (← need top).render
  | .pop => do
    let _ ← need pop
    return none
  | .compose k => do
    -- The polynomial itself is needed besides its replacements.
    unless k.toNat < (← get).size do throw .stackUnderflow
    let p ← need pop
    let qs ← need (popMany k.toNat)
    push (p.compose qs)
    return none

/-! ## Lines -/

/-- Works off a line with the number `n`; literals nest at most `limit` sums. -/
def process (limit : Nat) (line : List Char) (n : Nat) : Action (Option (List Char)) :=
  match Calculator.LineKind.ofLine line with
  | .ignored => return none
  | .command => do
    let command ← MonadExcept.ofExcept (Command.parse line)
    perform command
  | .literal => do
    let p ← MonadExcept.ofExcept ((Poly.parse limit line n).mapError .wrongPoly)
    push p
    return none

/-- Works off lines one after the other, whether they fail or not; the first one has the number
    `n`. -/
def processAll (limit : Nat) : (n : Nat) → List (List Char) → StateM Stack (List (Nat × Outcome))
  | _, [] => return []
  | n, line :: lines => do
    let outcome ← (process limit line n).run
    let outcomes ← processAll limit (n + 1) lines
    return (n, outcome) :: outcomes

end InPlace

end PolyCalc
