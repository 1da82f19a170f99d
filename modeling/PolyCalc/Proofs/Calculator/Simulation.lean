import PolyCalc.Proofs.Calculator.Feedback
import PolyCalc.Proofs.Poly.Evaluation

set_option autoImplicit false

/-! # The stack of expansions

What the calculator computes can be said without its trees. The machine of this file has expansions
on its stack, and its commands are the operations of their ring and substitution (`Command.act`).
Multiplied out, the calculator moves as this machine does, whatever lies on its stack
(`act_expand`). Its tests look at the shape of trees, and that they speak of expansions
(`Command.Answers`) needs the trees to be canonical, which they are in every run. -/

namespace PolyCalc

/-- The polynomials on a stack, multiplied out: what is left of each is its coefficient at every
    sequence of exponents (`Poly.coeff_expand_eq_coefAt`). -/
noncomputable def Stack.expand (s : Stack) : List Expansion := s.polys.map Poly.expand

/-! ## The machine -/

/-- What is printed about a statement: `1` if it is true, and `0` if it is not. -/
def Tells (statement : Prop) (output : Option (List Char)) : Prop :=
  output = some ['1'] ∧ statement ∨ output = some ['0'] ∧ ¬statement

namespace Command

open Wrapping Expansion

/-- What a command makes of a stack of expansions, the topmost first, if its operands are there. -/
noncomputable def act : Command → List Expansion → Option (List Expansion)
  | .zero, s => some (0 :: s)
  | .clone, p :: s => some (p :: p :: s)
  | .pop, _ :: s => some s
  | .neg, p :: s => some (-p :: s)
  | .evalAt x, p :: s => some (subst (evaluation x) p :: s)
  | .add, p :: q :: s => some ((p + q) :: s)
  | .mul, p :: q :: s => some ((p * q) :: s)
  | .sub, p :: q :: s => some ((p - q) :: s)
  | .compose k, p :: s =>
    if k.toNat ≤ s.length then
      some (subst (fun i => (s.take k.toNat).reverse.getD i 0) p :: s.drop k.toNat)
    else none
  | .isEq, p :: q :: s => some (p :: q :: s)
  | .isConstant, p :: s => some (p :: s)
  | .isZero, p :: s => some (p :: s)
  | .degree, p :: s => some (p :: s)
  | .degreeIn _, p :: s => some (p :: s)
  | .print, p :: s => some (p :: s)
  | _, _ => none

/-- What a command may print about a stack of expansions: a test tells what is the case, degrees and
    written forms are some text, and all other commands are silent. -/
def Answers : Command → List Expansion → Option (List Char) → Prop
  | .isEq, p :: q :: _, output => Tells (p = q) output
  | .isZero, p :: _, output => Tells (p = 0) output
  | .isConstant, p :: _, output => Tells (∃ c, p = const c) output
  | .degree, _, output => output.isSome = true
  | .degreeIn _, _, output => output.isSome = true
  | .print, _, output => output.isSome = true
  | _, _, output => output = none

end Command

namespace Calculator

/-- The step that a command takes on a stack is that of the machine: it fails if operands are
    missing, and only then; otherwise it leaves what the machine leaves and prints what it may,
    what lies below the operands is as before, and what prints moves nothing. -/
def Simulates (command : Command) (s : Stack) : Step → Prop
  | .error e => e = .stackUnderflow ∧ s.size < command.arity ∧ command.act s.expand = none
  | .ok (s', output) =>
    command.arity ≤ s.size ∧ command.act s.expand = some s'.expand ∧
      command.Answers s.expand output ∧ (output.isSome = true → s' = s) ∧
      ∃ top, s'.polys = top ++ s.polys.drop command.arity

/-- What a line does to a stack of expansions, where polynomials may be nested up to a limit: a
    line that is not understood, or finds too few operands, does nothing. -/
noncomputable def actLine (limit : Nat) (s : List Expansion) (line : List Char) : List Expansion :=
  match LineKind.ofLine line with
  | .ignored => s
  | .command =>
    match Command.parse line with
    | .ok command => (command.act s).getD s
    | .error _ => s
  | .literal =>
    match Poly.parseWithin limit limit line with
    | .ok p => p.expand :: s
    | .error _ => s

end Calculator

/-! ## Tests on canonical trees -/

namespace Poly

variable {p q : Poly}

theorem expand_eq_zero_iff (hp : p.isCanonical = true) : p.expand = 0 ↔ p.isZero = true := by
  constructor
  · intro h
    rw [isZero_iff_eq_zero hp]
    exact eq_of_expand_eq hp rfl (h.trans expand_zero.symm)
  · exact expand_eq_zero_of_isZero

theorem exists_expand_eq_const_iff (hp : p.isCanonical = true) :
    (∃ c, p.expand = Expansion.const c) ↔ p.isConstant = true := by
  constructor
  · rintro ⟨c, hc⟩
    rw [eq_of_expand_eq hp (q := coeff c) rfl hc]
    rfl
  · intro h
    cases p with
    | coeff c => exact ⟨c, rfl⟩
    | sum ms => cases h

theorem expand_eq_expand_iff (hp : p.isCanonical = true) (hq : q.isCanonical = true) :
    p.expand = q.expand ↔ p = q :=
  ⟨eq_of_expand_eq hp hq, congrArg expand⟩

end Poly

namespace Calculator

variable {limit : Nat} {command : Command} {operands : List Poly}

/-! ## One command -/

theorem act_eq_none {s : List Expansion} (h : s.length < command.arity) :
    command.act s = none := by
  cases command with
  | zero => exact absurd h (Nat.not_lt_zero _)
  | add | mul | sub | isEq =>
    match s, h with
    | [], _ => rfl
    | [p], _ => rfl
  | compose k =>
    cases s with
    | nil => rfl
    | cons p s => exact if_neg (Nat.not_le_of_lt (Nat.lt_of_succ_lt_succ h))
  | isConstant | isZero | clone | neg | degree | degreeIn | evalAt | print | pop =>
    obtain rfl : s = [] := List.length_eq_zero_iff.mp (Nat.lt_one_iff.mp h)
    rfl

theorem replacement_reverse (qs : List Poly) :
    Poly.replacement qs.reverse = fun i => (qs.map Poly.expand).reverse.getD i 0 := by
  funext i
  rw [Poly.replacement, ← List.map_reverse, ← Poly.expand_zero]
  exact (List.getD_map ..).symm

theorem act_operands (rest : List Expansion) (h : operands.length = command.arity) :
    command.act (operands.map Poly.expand ++ rest) =
      some ((command.results operands).map Poly.expand ++ rest) := by
  cases command with
  | zero =>
    obtain rfl := List.length_eq_zero_iff.mp h
    simp [Command.act, Command.results, Poly.expand_zero]
  | add | mul | sub | isEq =>
    obtain ⟨p, q, rfl⟩ := List.length_eq_two.mp h
    simp [Command.act, Command.results, Poly.expand_add, Poly.expand_mul, Poly.expand_sub]
  | compose k =>
    obtain ⟨p, qs, rfl⟩ := List.exists_cons_of_length_eq_add_one h
    have hk : k.toNat = (qs.map Poly.expand).length := by
      rw [List.length_map]
      exact (Nat.succ.inj h).symm
    have hle : k.toNat ≤ (qs.map Poly.expand ++ rest).length := by
      rw [hk, List.length_append]
      exact Nat.le_add_right _ _
    simp only [Command.act, Command.results, List.map_cons, List.cons_append, List.map_nil,
      List.nil_append, if_pos hle, Poly.expand_compose, replacement_reverse]
    rw [hk, List.take_left, List.drop_left]
  | isConstant | isZero | clone | neg | degree | degreeIn | evalAt | print | pop =>
    obtain ⟨p, rfl⟩ := List.length_eq_one_iff.mp h
    simp [Command.act, Command.results, Poly.expand_neg, Poly.expand_evalFirst]

/-- Multiplied out, a command does what the machine does, also to stacks of trees of any form. -/
theorem act_expand (command : Command) (s : Stack) :
    command.act s.expand = (execute s command).toOption.map (fun result => result.1.expand) := by
  rcases execute_cases command s with ⟨hlt, hexec⟩ | ⟨operands, rest, hpolys, hlength, hexec⟩
  · have hlt' : s.expand.length < command.arity := by rwa [Stack.expand, List.length_map]
    rw [hexec, act_eq_none hlt']
    rfl
  · have hexpand : s.expand = operands.map Poly.expand ++ rest.map Poly.expand := by
      rw [Stack.expand, hpolys, List.map_append]
    rw [hexec, hexpand, act_operands _ hlength, ← List.map_append]
    rfl

/-! ## What is printed -/

theorem tells_flag {b : Bool} {statement : Prop} (h : statement ↔ b = true) :
    Tells statement (some (flag b)) := by
  cases b with
  | false => exact Or.inr ⟨rfl, fun hs => Bool.false_ne_true (h.mp hs)⟩
  | true => exact Or.inl ⟨rfl, h.mpr rfl⟩

theorem answers_printed (rest : List Expansion) (h : operands.length = command.arity)
    (hcan : ∀ p ∈ operands, p.isCanonical = true) :
    command.Answers (operands.map Poly.expand ++ rest) (command.printed operands) := by
  cases command with
  | zero =>
    obtain rfl := List.length_eq_zero_iff.mp h
    rfl
  | isEq =>
    obtain ⟨p, q, rfl⟩ := List.length_eq_two.mp h
    have hp : p.isCanonical = true := hcan p (by simp)
    have hq : q.isCanonical = true := hcan q (by simp)
    refine tells_flag ?_
    rw [Poly.expand_eq_expand_iff hp hq, decide_eq_true_iff]
  | isZero =>
    obtain ⟨p, rfl⟩ := List.length_eq_one_iff.mp h
    exact tells_flag (Poly.expand_eq_zero_iff (hcan p List.mem_cons_self))
  | isConstant =>
    obtain ⟨p, rfl⟩ := List.length_eq_one_iff.mp h
    exact tells_flag (Poly.exists_expand_eq_const_iff (hcan p List.mem_cons_self))
  | add | mul | sub =>
    obtain ⟨p, q, rfl⟩ := List.length_eq_two.mp h
    rfl
  | compose k =>
    obtain ⟨p, qs, rfl⟩ := List.exists_cons_of_length_eq_add_one h
    rfl
  | clone | neg | degree | degreeIn | evalAt | print | pop =>
    obtain ⟨p, rfl⟩ := List.length_eq_one_iff.mp h
    rfl

/-- What prints leaves its operands where they are. -/
theorem results_eq_of_printed (h : (command.printed operands).isSome = true) :
    command.results operands = operands := by
  unfold Command.printed at h
  split at h
  · rfl
  · rfl
  · rfl
  · rfl
  · rfl
  · rfl
  · cases h

theorem simulates_execute (command : Command) {s : Stack}
    (hcan : ∀ p ∈ s.polys, p.isCanonical = true) :
    Simulates command s (execute s command) := by
  have hact := act_expand command s
  rcases execute_cases command s with ⟨hlt, hexec⟩ | ⟨operands, rest, hpolys, hlength, hexec⟩
  · rw [hexec] at hact ⊢
    exact ⟨rfl, hlt, hact⟩
  · rw [hexec] at hact ⊢
    refine ⟨?_, hact, ?_, ?_, command.results operands, ?_⟩
    · rw [Stack.size, hpolys, List.length_append, hlength]
      exact Nat.le_add_right _ _
    · rw [Stack.expand, hpolys, List.map_append]
      apply answers_printed _ hlength
      intro p hp
      apply hcan
      rw [hpolys]
      exact List.mem_append_left rest hp
    · intro hprinted
      rw [results_eq_of_printed hprinted, ← hpolys]
    · rw [hpolys, ← hlength, List.drop_left]

/-! ## Lines and runs -/

theorem expand_feed (c : Calculator) (line : List Char) (n : Nat) :
    (c.feed line n).1.stack.expand = actLine c.depthLimit c.stack.expand line := by
  rw [feed, step, actLine]
  cases LineKind.ofLine line with
  | ignored => rfl
  | command =>
    cases Command.parse line with
    | error e => rfl
    | ok command =>
      simp only [act_expand]
      cases execute c.stack command with
      | error e => rfl
      | ok result => rfl
  | literal =>
    rw [Poly.parse]
    cases Poly.parseWithin c.depthLimit c.depthLimit line with
    | error fault => rfl
    | ok p => rfl

theorem expand_feedAll (c : Calculator) (n : Nat) (lines : List (List Char)) :
    (c.feedAll n lines).1.stack.expand =
      lines.foldl (actLine c.depthLimit) c.stack.expand := by
  induction lines generalizing c n with
  | nil => rfl
  | cons line lines ih =>
    rw [List.foldl_cons, ← expand_feed c line n, ← depthLimit_feed c line n]
    exact ih (c.feed line n).1 (n + 1)

/-- A calculator that was fed any lines moves as the machine of expansions does: with every command,
    and over every further run of lines. -/
theorem Reachable.simulates {c : Calculator} (h : Reachable limit c) :
    (∀ command, Simulates command c.stack (execute c.stack command)) ∧
      ∀ n lines, (c.feedAll n lines).1.stack.expand =
        lines.foldl (actLine limit) c.stack.expand := by
  constructor
  · intro command
    exact simulates_execute command fun p hp => (h.fits p hp).isCanonical
  · intro n lines
    rw [expand_feedAll, h.depthLimit_eq]

theorem simulates_greatestPower :
    Reachable 1 ⟨⟨[greatestPower, greatestPower]⟩, 1⟩ ∧
      Simulates (.compose 1) ⟨[greatestPower, greatestPower]⟩ (.ok (⟨[.var 0]⟩, none)) ∧
      Simulates .isEq ⟨[greatestPower, greatestPower]⟩
        (.ok (⟨[greatestPower, greatestPower]⟩, some ['1'])) ∧
      Simulates (.compose 2) ⟨[greatestPower, greatestPower]⟩ (.error .stackUnderflow) ∧
      (feedAll ⟨⟨[greatestPower, greatestPower]⟩, 1⟩ 3
          ["COMPOSE 1".toList, "COMPOSE 1".toList]).1.stack.expand =
        ["COMPOSE 1".toList, "COMPOSE 1".toList].foldl (actLine 1)
          [greatestPower.expand, greatestPower.expand] := by
  have hreach : Reachable 1 ⟨⟨[greatestPower, greatestPower]⟩, 1⟩ :=
    reachable_greatestPower.feed "CLONE".toList 2
  -- The exponents multiply to one, modulo 2 ^ 32.
  have hvalue : greatestPower.compose [greatestPower] = .var 0 := by decide +kernel
  have hcompose : execute ⟨[greatestPower, greatestPower]⟩ (.compose 1) =
      .ok (⟨[.var 0]⟩, none) := by
    rw [← hvalue]
    rfl
  have hequal : execute ⟨[greatestPower, greatestPower]⟩ .isEq =
      .ok (⟨[greatestPower, greatestPower]⟩, some ['1']) := by rfl
  have hfew : execute ⟨[greatestPower, greatestPower]⟩ (.compose 2) =
      .error .stackUnderflow := by rfl
  obtain ⟨hstep, hrun⟩ := hreach.simulates
  refine ⟨hreach, ?_, ?_, ?_, hrun 3 _⟩
  · rw [← hcompose]
    exact hstep (.compose 1)
  · rw [← hequal]
    exact hstep .isEq
  · rw [← hfew]
    exact hstep (.compose 2)

end Calculator

end PolyCalc
