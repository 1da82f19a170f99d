import Mathlib.Data.List.Nodup
import PolyCalc.Calculator.InPlace
import PolyCalc.Proofs.Calculator.Scripts

set_option autoImplicit false

/-! # Lines that fail

A command that works in place sees that it lacks operands before it takes any: it ends as the step
that gives a new stack only if it succeeds (`perform_on`). So a line that fails leaves no trace on
the stack, and a script does the same when such lines are made empty, except that it reports no
errors then (`run_withoutFailures`). -/

namespace PolyCalc

open Calculator

/-! ## Commands in place -/

namespace InPlace

variable {α β : Type}

theorem bind_on (action : Action α) (next : α → Action β) (s : Stack) :
    Action.on (action >>= next) s = match action.on s with
      | (.ok a, s') => (next a).on s'
      | (.error e, s') => (.error e, s') := by
  show StateT.run (ExceptT.bindCont (m := StateM Stack) next (action.on s).1) (action.on s).2 = _
  rcases action.on s with ⟨_ | _, _⟩ <;> rfl

theorem need_on (take : StateM Stack (Option α)) (s : Stack) :
    (need take).on s =
      ((take.run s).1.elim (.error .stackUnderflow) Except.ok, (take.run s).2) := by
  have htake : Action.on (liftM take : Action (Option α)) s =
      (.ok (take.run s).1, (take.run s).2) := rfl
  unfold need
  rw [bind_on, htake]
  rcases (take.run s).1 with _ | a <;> rfl

theorem pop_run (s : Stack) :
    pop.run s = match s.pop? with
      | some (p, rest) => (some p, rest)
      | none => (none, s) := by
  obtain ⟨_ | ⟨p, ps⟩⟩ := s <;> rfl

/-- Two polynomials are taken off one by one, but only if both are there. -/
theorem popTwo_run (s : Stack) :
    popTwo.run s = match s.popTwo? with
      | some (p, q, rest) => (some (p, q), rest)
      | none => (none, s) := by
  obtain ⟨_ | ⟨p, _ | ⟨q, ps⟩⟩⟩ := s <;> rfl

theorem popMany_run (s : Stack) (k : Nat) :
    (popMany k).run s = match s.popMany? k with
      | some (ps, rest) => (some ps, rest)
      | none => (none, s) := by
  show StateT.run (match s.popMany? k with
    | some (ps, rest) => do set rest; return some ps
    | none => return none) s = _
  rcases s.popMany? k with _ | ⟨ps, rest⟩ <;> rfl

/-- How a step ends in place: one that fails leaves the stack as it was. -/
def settle (s : Stack) : Step → Outcome × Stack
  | .ok (s', output) => (.ok output, s')
  | .error e => (.error e, s)

theorem eq_of_settle_error {s s' : Stack} {step : Step} {e : CommandError}
    (h : settle s step = (.error e, s')) : s' = s := by
  cases step with
  | error _ => simp only [settle, Prod.mk.injEq] at h; exact h.2.symm
  | ok _ => simp [settle] at h

theorem perform_inspect (s : Stack) (view : Poly → List Char) :
    Action.on (do return some (view (← need top))) s = settle s (inspect s view) := by
  obtain ⟨_ | ⟨p, ps⟩⟩ := s <;> rfl

theorem perform_unary (s : Stack) (f : Poly → Poly) :
    Action.on (do let p ← need pop; push (f p); return none) s = settle s (unary s f) := by
  simp only [bind_on, need_on, pop_run]
  unfold unary
  cases s.pop? with
  | none => rfl
  | some _ => rfl

theorem perform_binary (s : Stack) (f : Poly → Poly → Poly) :
    Action.on (do let (p, q) ← need popTwo; push (f p q); return none) s =
      settle s (binary s f) := by
  simp only [bind_on, need_on, popTwo_run]
  unfold binary
  cases s.popTwo? with
  | none => rfl
  | some _ => rfl

/-- The count is compared with the size of the stack before anything is taken, and then both the
    polynomial and its replacements are there. -/
theorem perform_compose (s : Stack) (k : UInt64) :
    (perform (.compose k)).on s = settle s (execute s (.compose k)) := by
  by_cases hk : k.toNat < s.size
  · obtain ⟨_ | ⟨p, ps⟩⟩ := s
    · exact absurd hk (Nat.not_lt_zero _)
    · have hmany : (Stack.mk ps).popMany? k.toNat =
          some ((ps.take k.toNat).reverse, ⟨ps.drop k.toNat⟩) := if_pos (Nat.le_of_lt_succ hk)
      show Action.on (if k.toNat < Stack.size ⟨p :: ps⟩ then do
          let p ← need pop
          let qs ← need (popMany k.toNat)
          push (p.compose qs)
          return none
        else throw CommandError.stackUnderflow) ⟨p :: ps⟩ = _
      rw [if_pos hk]
      simp only [bind_on, need_on, pop_run, popMany_run, Stack.pop?, hmany, Option.elim_some,
        execute, composeOperands?]
      rfl
  · have hlt : s.polys.length < k.toNat + 1 := Nat.lt_succ_of_le (Nat.le_of_not_lt hk)
    rw [execute, composeOperands?_of_lt hlt]
    show Action.on (if k.toNat < s.size then _ else throw CommandError.stackUnderflow) s = _
    rw [if_neg hk]
    rfl

/-- A command in place ends as the step does, and keeps the stack if that fails. -/
theorem perform_on (command : Command) (s : Stack) :
    (perform command).on s = settle s (execute s command) := by
  cases command with
  | zero => rfl
  | isConstant | isZero | degree | degreeIn | print => exact perform_inspect s _
  | neg => exact perform_unary s Poly.neg
  | evalAt x => exact perform_unary s (Poly.evalFirst x)
  | add => exact perform_binary s Poly.add
  | mul => exact perform_binary s Poly.mul
  | sub => exact perform_binary s Poly.sub
  | clone | pop => obtain ⟨_ | ⟨p, ps⟩⟩ := s <;> rfl
  | isEq => obtain ⟨_ | ⟨p, _ | ⟨q, ps⟩⟩⟩ := s <;> rfl
  | compose k => exact perform_compose s k

theorem process_on (c : Calculator) (line : List Char) (n : Nat) :
    (process c.depthLimit line n).on c.stack = settle c.stack (c.step line n) := by
  unfold process step
  cases LineKind.ofLine line with
  | ignored => rfl
  | command =>
    cases Command.parse line with
    | error e => rfl
    | ok command => exact perform_on command c.stack
  | literal =>
    cases Poly.parse c.depthLimit line n with
    | error e => rfl
    | ok p => rfl

theorem settle_step (c : Calculator) (line : List Char) (n : Nat) :
    settle c.stack (c.step line n) = ((c.feed line n).2, (c.feed line n).1.stack) := by
  unfold feed
  cases c.step line n with
  | error e => rfl
  | ok result => rfl

theorem processAll_cons_run (limit n : Nat) (line : List Char) (lines : List (List Char))
    (s : Stack) :
    (processAll limit n (line :: lines)).run s =
      let first := (process limit line n).on s
      let rest := (processAll limit (n + 1) lines).run first.2
      ((n, first.1) :: rest.1, rest.2) := rfl

/-- Lines in place, one after the other, have the outcomes of the lines of a script, and leave the
    same stack. -/
theorem processAll_run (c : Calculator) (n : Nat) (lines : List (List Char)) :
    (processAll c.depthLimit n lines).run c.stack =
      ((c.feedAll n lines).2, (c.feedAll n lines).1.stack) := by
  induction lines generalizing c n with
  | nil => rfl
  | cons line lines ih =>
    have hline := (process_on c line n).trans (settle_step c line n)
    have hrest := ih (c.feed line n).1 (n + 1)
    rw [depthLimit_feed] at hrest
    simp only [processAll_cons_run, hline, hrest, feedAll_cons]

end InPlace

/-! ## Transcripts without errors -/

/-- The outcome of a line that does nothing in the place of one that fails. -/
def Outcome.silenced : Outcome → Outcome
  | .error _ => .ok none
  | .ok output => .ok output

namespace Transcript

/-- Whether the line with the number `k` reports an error. -/
def failsAt (t : Transcript) (k : Nat) : Bool := t.errors.any (fun x => x.1 == k)

theorem ofOutcomes_silenced (c : Calculator) (outcomes : List (Nat × Outcome)) :
    ofOutcomes c (outcomes.map fun x => (x.1, x.2.silenced)) =
      { ofOutcomes c outcomes with errors := [] } := by
  simp only [ofOutcomes, List.filterMap_map, mk.injEq, true_and, List.filterMap_eq_nil_iff]
  refine ⟨List.filterMap_congr ?_, ?_⟩
  · rintro ⟨n, _ | _⟩ - <;> rfl
  · rintro ⟨n, _ | _⟩ - <;> rfl

theorem failsAt_ofOutcomes_iff (c : Calculator) (outcomes : List (Nat × Outcome)) (n : Nat) :
    (ofOutcomes c outcomes).failsAt n = true ↔ ∃ e, (n, .error e) ∈ outcomes := by
  simp only [failsAt, ofOutcomes, List.any_eq_true, List.mem_filterMap, beq_iff_eq]
  constructor
  · rintro ⟨⟨k, e⟩, ⟨⟨m, e' | output⟩, hmem, herror⟩, hk⟩
    · cases herror
      exact ⟨e, hk ▸ hmem⟩
    · cases herror
  · rintro ⟨e, hmem⟩
    exact ⟨(n, e), ⟨(n, .error e), hmem, rfl⟩, rfl⟩

/-- The numbers of lines tell which of them fail if no two lines have the same. -/
theorem failsAt_ofOutcomes (c : Calculator) {outcomes : List (Nat × Outcome)}
    (hnodup : (outcomes.map Prod.fst).Nodup) {n : Nat} {outcome : Outcome}
    (hmem : (n, outcome) ∈ outcomes) : (ofOutcomes c outcomes).failsAt n = !outcome.isOk := by
  cases outcome with
  | error e => exact (failsAt_ofOutcomes_iff c outcomes n).mpr ⟨e, hmem⟩
  | ok output =>
    refine Bool.eq_false_iff.mpr ?_
    intro hfails
    obtain ⟨e, hother⟩ := (failsAt_ofOutcomes_iff c outcomes n).mp hfails
    cases List.inj_on_of_nodup_map hnodup hmem hother rfl

end Transcript

namespace Calculator

/-! ## Failing lines made empty -/

/-- Lines that fail can be made empty: the same calculator is left, and all other lines come out
    as they did. -/
theorem feedAll_clearNumbered (clear : Nat → Bool) (c : Calculator) (n : Nat)
    (lines : List (List Char)) (h : ∀ x ∈ (c.feedAll n lines).2, clear x.1 = !x.2.isOk) :
    c.feedAll n (Text.clearNumbered clear n lines) =
      ((c.feedAll n lines).1, (c.feedAll n lines).2.map fun x => (x.1, x.2.silenced)) := by
  induction lines generalizing c n with
  | nil => rfl
  | cons line lines ih =>
    rw [feedAll_cons] at h
    obtain ⟨hline, hlines⟩ := List.forall_mem_cons.mp h
    have hrest := ih _ _ hlines
    have hfeed : c.feed (if clear n then [] else line) n =
        ((c.feed line n).1, (c.feed line n).2.silenced) := by
      rw [hline]
      cases hstep : c.step line n with
      | error e => rw [feed_of_error hstep]; rfl
      | ok result => rw [feed_of_ok hstep]; exact feed_of_ok hstep
    rw [Text.clearNumbered, feedAll_cons, hfeed, hrest, feedAll_cons]
    rfl

/-- What lines leave behind, the first one with the number one. -/
def runLines (c : Calculator) (lines : List (List Char)) : Transcript :=
  Transcript.ofOutcomes (c.feedAll 1 lines).1 (c.feedAll 1 lines).2

theorem runLines_append_empty (c : Calculator) (lines : List (List Char)) :
    c.runLines (lines ++ [[]]) = c.runLines lines := by
  rw [runLines, feedAll_append]
  simp [runLines, Transcript.ofOutcomes, feedAll, feed, step, LineKind.ofLine, Except.toOption]

theorem runLines_clearNumbered (c : Calculator) (lines : List (List Char)) :
    c.runLines (Text.clearNumbered (c.runLines lines).failsAt 1 lines) =
      { c.runLines lines with errors := [] } := by
  have hnodup : ((c.feedAll 1 lines).2.map Prod.fst).Nodup := by
    rw [map_fst_feedAll]
    exact List.nodup_range'
  have hfails : ∀ x ∈ (c.feedAll 1 lines).2, (c.runLines lines).failsAt x.1 = !x.2.isOk := by
    intro x hx
    exact Transcript.failsAt_ofOutcomes _ hnodup hx
  rw [runLines, feedAll_clearNumbered _ c 1 lines hfails, Transcript.ofOutcomes_silenced]
  rfl

/-- The script with the lines made empty that report an error. -/
def withoutFailures (c : Calculator) (script : List UInt8) : List UInt8 :=
  Text.clearLines 10 (c.run script).failsAt 1 script

theorem scriptLines_clearLines (clear : Nat → Bool) (script : List UInt8) :
    scriptLines (Text.clearLines 10 clear 1 script) =
        Text.clearNumbered clear 1 (scriptLines script) ∨
      scriptLines (Text.clearLines 10 clear 1 script) ++ [[]] =
        Text.clearNumbered clear 1 (scriptLines script) := by
  unfold scriptLines
  rw [← Text.map_clearNumbered (by rfl)]
  rcases Text.splitLines_clearLines clear 1 script with hlines | hlines
  · rw [hlines]
    exact Or.inl rfl
  · rw [← hlines, List.map_append]
    exact Or.inr rfl

/-- A script whose failing lines are made empty runs as before, but reports no errors. -/
theorem run_withoutFailures (c : Calculator) (script : List UInt8) :
    c.run (c.withoutFailures script) = { c.run script with errors := [] } := by
  show c.runLines (scriptLines (Text.clearLines 10 (c.run script).failsAt 1 script)) = _
  refine Eq.trans ?_ (runLines_clearNumbered c (scriptLines script))
  rcases scriptLines_clearLines (c.run script).failsAt script with hlines | hlines
  · rw [hlines]
    rfl
  -- The last line has gone with its text, as it had no line break.
  · rw [← runLines_append_empty, hlines]
    rfl

/-- Failed lines are transparent. A command or a line that fails in place leaves the stack as it
    was. A script that is worked off in place therefore has the outcomes and leaves the stack of
    its run, and if the lines that report an error are made empty, it prints the same, leaves the
    same calculator and reports no errors. -/
theorem failed_lines_transparent :
    (∀ (command : Command) (s s' : Stack) (e : CommandError),
      (InPlace.perform command).on s = (.error e, s') → s' = s) ∧
    (∀ (limit : Nat) (line : List Char) (n : Nat) (s s' : Stack) (e : CommandError),
      (InPlace.process limit line n).on s = (.error e, s') → s' = s) ∧
    ∀ (c : Calculator) (script : List UInt8),
      (InPlace.processAll c.depthLimit 1 (scriptLines script)).run c.stack =
          (c.outcomes script, (c.run script).calculator.stack) ∧
        (c.run (c.withoutFailures script)).stdout = (c.run script).stdout ∧
        (c.run (c.withoutFailures script)).calculator = (c.run script).calculator ∧
        (c.run (c.withoutFailures script)).stderr = "" := by
  refine ⟨?_, ?_, ?_⟩
  · intro command s s' e h
    rw [InPlace.perform_on] at h
    exact InPlace.eq_of_settle_error h
  · intro limit line n s s' e h
    have hprocess := InPlace.process_on ⟨s, limit⟩ line n
    exact InPlace.eq_of_settle_error (hprocess.symm.trans h)
  · intro c script
    rw [run_withoutFailures]
    exact ⟨InPlace.processAll_run c 1 _, rfl, rfl, rfl⟩

/-- Neither a missing replacement nor a missing operand changes the stack, and two failing lines
    can be made empty. -/
theorem failed_lines_transparent_failingScript :
    (∃ s, (InPlace.perform (.compose 1)).on ⟨[.coeff 2]⟩ = (.error .stackUnderflow, s) ∧
        s = ⟨[.coeff 2]⟩) ∧
      (∃ s, (InPlace.process 2 ['A', 'D', 'D'] 1).on ⟨[.coeff 2]⟩ = (.error .stackUnderflow, s) ∧
        s = ⟨[.coeff 2]⟩) ∧
      (new 2).withoutFailures (failingScript ++ openScript) =
        [50, 13, 10, 10, 10, 80, 82, 73, 78, 84] ∧
      (((new 2).run (failingScript ++ openScript)).stderr ≠ "" ∧
        ((new 2).run ((new 2).withoutFailures (failingScript ++ openScript))).stdout =
          ((new 2).run (failingScript ++ openScript)).stdout ∧
        ((new 2).run ((new 2).withoutFailures (failingScript ++ openScript))).calculator =
          ((new 2).run (failingScript ++ openScript)).calculator ∧
        ((new 2).run ((new 2).withoutFailures (failingScript ++ openScript))).stderr = "") :=
  ⟨⟨_, rfl, failed_lines_transparent.1 (.compose 1) _ _ .stackUnderflow rfl⟩,
    ⟨_, rfl, failed_lines_transparent.2.1 2 ['A', 'D', 'D'] 1 _ _ .stackUnderflow rfl⟩,
    by decide +kernel, by decide +kernel,
    (failed_lines_transparent.2.2 (new 2) (failingScript ++ openScript)).2⟩

end Calculator

end PolyCalc
