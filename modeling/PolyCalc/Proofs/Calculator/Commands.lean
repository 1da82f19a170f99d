import Mathlib.Data.List.Basic
import PolyCalc.Calculator.Machine

set_option autoImplicit false

/-! # What a command does to the stack

A command looks at a fixed number of polynomials on top of the stack, its operands. If there are
fewer, it fails; otherwise it puts its results in their place, and what is below does not matter to
it (`execute_of_operands`, `execute_of_lt_arity`). -/

namespace PolyCalc

namespace Command

open Calculator

/-- The number of operands. -/
def arity : Command → Nat
  | .zero => 0
  | .add | .mul | .sub | .isEq => 2
  | .compose k => k.toNat + 1
  | _ => 1

/-- What is left in the place of the operands, the topmost first. -/
def results : Command → List Poly → List Poly
  | .zero, _ => [.zero]
  | .clone, [p] => [p, p]
  | .pop, [_] => []
  | .neg, [p] => [p.neg]
  | .evalAt x, [p] => [p.evalFirst x]
  | .add, [p, q] => [p.add q]
  | .mul, [p, q] => [p.mul q]
  | .sub, [p, q] => [p.sub q]
  | .compose _, p :: qs => [p.compose qs.reverse]
  | _, ps => ps

/-- What is printed about the operands. -/
def printed : Command → List Poly → Option (List Char)
  | .isConstant, [p] => some (flag p.isConstant)
  | .isZero, [p] => some (flag p.isZero)
  | .isEq, [p, q] => some (flag (p = q))
  | .degree, [p] => some (Text.writeInt p.degree.toInt)
  | .degreeIn k, [p] => some (Text.writeInt (p.degreeIn k.toNat).toInt)
  | .print, [p] => some p.render
  | _, _ => none

end Command

namespace Calculator

theorem composeOperands?_append (p : Poly) (qs rest : List Poly) :
    composeOperands? ⟨p :: (qs ++ rest)⟩ qs.length = some (p, qs.reverse, ⟨rest⟩) := by
  have hle : qs.length ≤ (qs ++ rest).length := by simp
  simp only [composeOperands?, Stack.pop?, Stack.popMany?, if_pos hle, List.take_left,
    List.drop_left, Option.map_some]

theorem composeOperands?_of_lt {s : Stack} {k : Nat} (h : s.polys.length < k + 1) :
    composeOperands? s k = none := by
  obtain ⟨ps⟩ := s
  cases ps with
  | nil => rfl
  | cons p ps =>
    have hlt : ¬k ≤ ps.length := Nat.not_le_of_lt (Nat.lt_of_succ_lt_succ h)
    simp only [composeOperands?, Stack.pop?, Stack.popMany?, if_neg hlt, Option.map_none]

theorem execute_of_operands {command : Command} {operands : List Poly} (rest : List Poly)
    (h : operands.length = command.arity) :
    execute ⟨operands ++ rest⟩ command =
      .ok (⟨command.results operands ++ rest⟩, command.printed operands) := by
  cases command with
  | zero =>
    rw [List.length_eq_zero_iff.mp h]
    rfl
  | add | mul | sub | isEq =>
    obtain ⟨p, q, rfl⟩ := List.length_eq_two.mp h
    rfl
  | compose k =>
    obtain ⟨p, qs, rfl⟩ := List.exists_cons_of_length_eq_add_one h
    have hk : k.toNat = qs.length := (Nat.succ.inj h).symm
    simp only [execute, List.cons_append, hk, composeOperands?_append]
    rfl
  | isConstant | isZero | clone | neg | degree | degreeIn | evalAt | print | pop =>
    obtain ⟨p, rfl⟩ := List.length_eq_one_iff.mp h
    rfl

theorem execute_of_lt_arity {command : Command} {s : Stack} (h : s.polys.length < command.arity) :
    execute s command = .error .stackUnderflow := by
  obtain ⟨ps⟩ := s
  cases command with
  | zero => exact absurd h (Nat.not_lt_zero _)
  | add | mul | sub | isEq =>
    match ps, h with
    | [], _ => rfl
    | [p], _ => rfl
  | compose k => simp only [execute, composeOperands?_of_lt h]
  | isConstant | isZero | clone | neg | degree | degreeIn | evalAt | print | pop =>
    obtain rfl : ps = [] := List.length_eq_zero_iff.mp (Nat.lt_one_iff.mp h)
    rfl

/-- A command fails for want of operands, or puts its results in their place. -/
theorem execute_cases (command : Command) (s : Stack) :
    (s.polys.length < command.arity ∧ execute s command = .error .stackUnderflow) ∨
      ∃ operands rest, s.polys = operands ++ rest ∧ operands.length = command.arity ∧
        execute s command = .ok (⟨command.results operands ++ rest⟩, command.printed operands) := by
  by_cases harity : command.arity ≤ s.polys.length
  · have hsplit : s.polys = s.polys.take command.arity ++ s.polys.drop command.arity :=
      (List.take_append_drop _ _).symm
    have hlength : (s.polys.take command.arity).length = command.arity :=
      List.length_take_of_le harity
    have hexec := execute_of_operands (s.polys.drop command.arity) hlength
    rw [← hsplit] at hexec
    exact Or.inr ⟨_, _, hsplit, hlength, hexec⟩
  · have hlt := Nat.lt_of_not_le harity
    exact Or.inl ⟨hlt, execute_of_lt_arity hlt⟩

/-- What a command that succeeds has done. -/
theorem exists_of_execute_ok {command : Command} {s s' : Stack} {output : Option (List Char)}
    (h : execute s command = .ok (s', output)) :
    ∃ operands rest, s.polys = operands ++ rest ∧ operands.length = command.arity ∧
      s'.polys = command.results operands ++ rest ∧ output = command.printed operands := by
  rcases execute_cases command s with ⟨-, hexec⟩ | ⟨operands, rest, hpolys, hlength, hexec⟩
  · rw [hexec] at h
    cases h
  · rw [hexec] at h
    cases h
    exact ⟨operands, rest, hpolys, hlength, rfl, rfl⟩

/-! ## Lines -/

/-- What a line that succeeds has done. -/
theorem step_ok_cases {c : Calculator} {line : List Char} {n : Nat} {s : Stack}
    {output : Option (List Char)} (h : c.step line n = .ok (s, output)) :
    (LineKind.ofLine line = .ignored ∧ s = c.stack ∧ output = none) ∨
      (∃ command, LineKind.ofLine line = .command ∧ Command.parse line = .ok command ∧
        execute c.stack command = .ok (s, output)) ∨
      ∃ p, LineKind.ofLine line = .literal ∧ Poly.parse c.depthLimit line n = .ok p ∧
        s = c.stack.push p ∧ output = none := by
  rw [step] at h
  cases hkind : LineKind.ofLine line with
  | ignored =>
    rw [hkind] at h
    cases h
    exact Or.inl ⟨rfl, rfl, rfl⟩
  | command =>
    rw [hkind] at h
    cases hparse : Command.parse line with
    | error e => simp only [hparse] at h; cases h
    | ok command =>
      simp only [hparse] at h
      exact Or.inr (Or.inl ⟨command, rfl, rfl, h⟩)
  | literal =>
    rw [hkind] at h
    cases hparse : Poly.parse c.depthLimit line n with
    | error e => simp only [hparse] at h; cases h
    | ok p =>
      simp only [hparse] at h
      cases h
      exact Or.inr (Or.inr ⟨p, rfl, rfl, rfl, rfl⟩)

theorem feed_of_ok {c : Calculator} {line : List Char} {n : Nat} {s : Stack}
    {output : Option (List Char)} (h : c.step line n = .ok (s, output)) :
    c.feed line n = ({ c with stack := s }, .ok output) := by
  rw [feed, h]

theorem feed_of_error {c : Calculator} {line : List Char} {n : Nat} {e : CommandError}
    (h : c.step line n = .error e) : c.feed line n = (c, .error e) := by
  rw [feed, h]

theorem feed_literal {c : Calculator} {line : List Char} {n : Nat} {p : Poly}
    (hkind : LineKind.ofLine line = .literal) (h : Poly.parse c.depthLimit line n = .ok p) :
    c.feed line n = ({ c with stack := c.stack.push p }, .ok none) := by
  refine feed_of_ok ?_
  simp only [step, hkind, h]

/-- A line that fails changes nothing, and one that succeeds only the stack. -/
theorem feed_cases (c : Calculator) (line : List Char) (n : Nat) :
    (c.feed line n).1 = c ∨
      ∃ s output, c.step line n = .ok (s, output) ∧ (c.feed line n).1 = { c with stack := s } := by
  rw [feed]
  cases c.step line n with
  | error e => exact Or.inl rfl
  | ok result => exact Or.inr ⟨result.1, result.2, rfl, rfl⟩

theorem depthLimit_feed (c : Calculator) (line : List Char) (n : Nat) :
    (c.feed line n).1.depthLimit = c.depthLimit := by
  rcases feed_cases c line n with hsame | ⟨s, output, -, hnext⟩
  · rw [hsame]
  · rw [hnext]

end Calculator

end PolyCalc
