import PolyCalc.Proofs.Calculator.Scripts

set_option autoImplicit false

/-! # What lies under the operands

A command asks the stack for its operands and for nothing else. So lines that find theirs on a
stack find them on a taller one too: they come out as before and leave what is further below as it
was (`feedAll_onTopOf`). Only lines that lack operands can tell the two stacks apart; those that
fail for any other reason may be among the others. -/

namespace PolyCalc

/-- The stack with the polynomials of another one under its own. -/
def Stack.onTopOf (s below : Stack) : Stack := ⟨s.polys ++ below.polys⟩

namespace Calculator

/-- The calculator with further polynomials under its stack. -/
def onTopOf (c : Calculator) (below : Stack) : Calculator :=
  { c with stack := c.stack.onTopOf below }

variable {c : Calculator} {n : Nat}

/-! ## One line -/

/-- A command that succeeds takes the same operands from a taller stack. -/
theorem execute_onTopOf {command : Command} {s s' : Stack} {output : Option (List Char)}
    (h : execute s command = .ok (s', output)) (below : Stack) :
    execute (s.onTopOf below) command = .ok (s'.onTopOf below, output) := by
  obtain ⟨operands, rest, hpolys, hlength, hresult, rfl⟩ := exists_of_execute_ok h
  have hexec := execute_of_operands (rest ++ below.polys) hlength
  simp only [Stack.onTopOf, hpolys, hresult, List.append_assoc]
  exact hexec

theorem step_onTopOf {line : List Char} (h : c.step line n ≠ .error .stackUnderflow)
    (below : Stack) :
    (c.onTopOf below).step line n =
      (c.step line n).map fun result => (result.1.onTopOf below, result.2) := by
  unfold step at h ⊢
  cases hkind : LineKind.ofLine line with
  | ignored => rfl
  | command =>
    cases hparse : Command.parse line with
    | error e => rfl
    | ok command =>
      simp only [hkind, hparse] at h ⊢
      cases hexec : execute c.stack command with
      | error e =>
        -- A command that could be read has no other error than the one that is ruled out.
        obtain rfl := execute_error hexec
        exact absurd hexec h
      | ok result => exact execute_onTopOf hexec below
  | literal =>
    cases hparse : Poly.parse c.depthLimit line n with
    | error e => simp only [onTopOf, hparse, Except.map]
    | ok p => simp only [onTopOf, hparse, Except.map]; rfl

theorem feed_onTopOf {line : List Char} (h : (c.feed line n).2 ≠ .error .stackUnderflow)
    (below : Stack) :
    (c.onTopOf below).feed line n = ((c.feed line n).1.onTopOf below, (c.feed line n).2) := by
  have hstep : c.step line n ≠ .error .stackUnderflow := by
    intro hlack
    rw [feed_of_error hlack] at h
    exact h rfl
  unfold feed
  rw [step_onTopOf hstep below]
  cases c.step line n with
  | error e => rfl
  | ok result => rfl

/-! ## Runs -/

theorem feedAll_onTopOf {lines : List (List Char)}
    (h : ∀ x ∈ (c.feedAll n lines).2, x.2 ≠ .error .stackUnderflow) (below : Stack) :
    (c.onTopOf below).feedAll n lines =
      ((c.feedAll n lines).1.onTopOf below, (c.feedAll n lines).2) := by
  induction lines generalizing c n with
  | nil => rfl
  | cons line lines ih =>
    rw [feedAll_cons] at h
    obtain ⟨hline, hlines⟩ := List.forall_mem_cons.mp h
    rw [feedAll_cons, feed_onTopOf hline below, ih hlines, feedAll_cons]

/-- A script that finds its operands prints and reports the same on a taller stack. -/
theorem run_onTopOf {script : List UInt8}
    (h : ∀ x ∈ c.outcomes script, x.2 ≠ .error .stackUnderflow) (below : Stack) :
    (c.onTopOf below).run script =
      { c.run script with calculator := (c.run script).calculator.onTopOf below } := by
  have hlines := feedAll_onTopOf h below
  rw [run_eq, run_eq, outcomes, hlines]
  rfl

/-- Lines are local. If none of them lacks operands when they are fed to a new calculator, they
    have the same outcomes on every other stack, and in the end what they leave on the empty stack
    lies on top of that one. -/
theorem feedAll_local {limit : Nat} {lines : List (List Char)}
    (h : ∀ x ∈ ((new limit).feedAll n lines).2, x.2 ≠ .error .stackUnderflow) (below : Stack) :
    (feedAll ⟨below, limit⟩ n lines).2 = ((new limit).feedAll n lines).2 ∧
      (feedAll ⟨below, limit⟩ n lines).1.stack.polys =
        ((new limit).feedAll n lines).1.stack.polys ++ below.polys := by
  have hrun : feedAll ⟨below, limit⟩ n lines = _ := feedAll_onTopOf h below
  rw [hrun]
  exact ⟨rfl, rfl⟩

/-- A number is put for `x₀` and printed, between a command without its argument and a text that is
    no polynomial. -/
def composeLines : List (List Char) :=
  ["AT".toList, "5".toList, "(1,1)".toList, "COMPOSE 1".toList, "PRINT".toList, "(1,".toList]

theorem feedAll_local_composeLines :
    (∀ x ∈ ((new 1).feedAll 1 composeLines).2, x.2 ≠ .error .stackUnderflow) ∧
      ((new 1).feedAll 1 composeLines).1.stack.polys = [.coeff 5] ∧
      (feedAll ⟨⟨[.coeff 7, .coeff 8]⟩, 1⟩ 1 composeLines).2 =
        ((new 1).feedAll 1 composeLines).2 ∧
      (feedAll ⟨⟨[.coeff 7, .coeff 8]⟩, 1⟩ 1 composeLines).1.stack.polys =
        ((new 1).feedAll 1 composeLines).1.stack.polys ++ [.coeff 7, .coeff 8] := by
  have hfound : ∀ x ∈ ((new 1).feedAll 1 composeLines).2, x.2 ≠ .error .stackUnderflow := by
    decide +kernel
  exact ⟨hfound, by decide +kernel, feedAll_local hfound ⟨[.coeff 7, .coeff 8]⟩⟩

end Calculator

end PolyCalc
