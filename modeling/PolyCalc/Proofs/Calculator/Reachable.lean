import PolyCalc.Calculator.Script
import PolyCalc.Proofs.Calculator.Commands
import PolyCalc.Proofs.Poly.Depth
import PolyCalc.Proofs.Poly.RoundTrip

set_option autoImplicit false

/-! # What holds in every run

A property of polynomials that numerals have and operations keep is one of all polynomials that ever
come to lie on the stack (`Reachable.forall_polys`). Such a property is to be canonical and no
deeper than the limit of the reader (`Reachable.fits`). So the limit, which only the reader checks,
bounds the recursion of all operations too. -/

namespace PolyCalc

/-- A property of polynomials that commands hand on from their operands to their results. -/
structure Poly.Preserved (P : Poly → Prop) : Prop where
  zero : P .zero
  neg : ∀ p, P p → P p.neg
  add : ∀ p q, P p → P q → P (p.add q)
  sub : ∀ p q, P p → P q → P (p.sub q)
  mul : ∀ p q, P p → P q → P (p.mul q)
  evalFirst : ∀ x p, P p → P (p.evalFirst x)
  compose : ∀ p qs, P p → (∀ q ∈ qs, P q) → P (p.compose qs)

namespace Calculator

variable {P : Poly → Prop} {limit : Nat}

/-! ## One step -/

theorem forall_results (hP : Poly.Preserved P) (command : Command) {operands : List Poly}
    (h : ∀ p ∈ operands, P p) : ∀ p ∈ command.results operands, P p := by
  unfold Command.results
  split
  · exact List.forall_mem_singleton.mpr hP.zero
  · have hp := List.forall_mem_singleton.mp h
    exact List.forall_mem_cons.mpr ⟨hp, h⟩
  · exact List.forall_mem_nil P
  · have hp := List.forall_mem_singleton.mp h
    exact List.forall_mem_singleton.mpr (hP.neg _ hp)
  · have hp := List.forall_mem_singleton.mp h
    exact List.forall_mem_singleton.mpr (hP.evalFirst _ _ hp)
  · obtain ⟨hp, hq⟩ := List.forall_mem_cons.mp h
    exact List.forall_mem_singleton.mpr (hP.add _ _ hp (List.forall_mem_singleton.mp hq))
  · obtain ⟨hp, hq⟩ := List.forall_mem_cons.mp h
    exact List.forall_mem_singleton.mpr (hP.mul _ _ hp (List.forall_mem_singleton.mp hq))
  · obtain ⟨hp, hq⟩ := List.forall_mem_cons.mp h
    exact List.forall_mem_singleton.mpr (hP.sub _ _ hp (List.forall_mem_singleton.mp hq))
  · obtain ⟨hp, hqs⟩ := List.forall_mem_cons.mp h
    exact List.forall_mem_singleton.mpr
      (hP.compose _ _ hp fun q hq => hqs q (List.mem_reverse.mp hq))
  · exact h

theorem forall_execute (hP : Poly.Preserved P) {command : Command} {s s' : Stack}
    {output : Option (List Char)} (hs : ∀ p ∈ s.polys, P p)
    (h : execute s command = .ok (s', output)) : ∀ p ∈ s'.polys, P p := by
  obtain ⟨operands, rest, hpolys, -, hresult, -⟩ := exists_of_execute_ok h
  rw [hpolys, List.forall_mem_append] at hs
  rw [hresult, List.forall_mem_append]
  exact ⟨forall_results hP command hs.1, hs.2⟩

theorem forall_step (hP : Poly.Preserved P) {c : Calculator}
    (hread : ∀ line n p, Poly.parse c.depthLimit line n = .ok p → P p)
    (hc : ∀ p ∈ c.stack.polys, P p) {line : List Char} {n : Nat} {s : Stack}
    {output : Option (List Char)} (h : c.step line n = .ok (s, output)) : ∀ p ∈ s.polys, P p := by
  rcases step_ok_cases h with ⟨-, rfl, -⟩ | ⟨command, -, -, hexec⟩ | ⟨p, -, hparse, rfl, -⟩
  · exact hc
  · exact forall_execute hP hc hexec
  · exact List.forall_mem_cons.mpr ⟨hread line n p hparse, hc⟩

/-! ## Runs -/

/-- The calculators that come of a new one by feeding it lines, whether they fail or not. -/
inductive Reachable (limit : Nat) : Calculator → Prop
  | new : Reachable limit (new limit)
  | feed {c : Calculator} (h : Reachable limit c) (line : List Char) (n : Nat) :
    Reachable limit (c.feed line n).1

theorem Reachable.feedAll {c : Calculator} (h : Reachable limit c) (n : Nat)
    (lines : List (List Char)) : Reachable limit (c.feedAll n lines).1 := by
  induction lines generalizing c n with
  | nil => exact h
  | cons line lines ih => exact ih (h.feed line n) (n + 1)

theorem Reachable.run {c : Calculator} (h : Reachable limit c) (script : List UInt8) :
    Reachable limit (c.run script).calculator :=
  h.feedAll 1 (scriptLines script)

theorem Reachable.depthLimit_eq {c : Calculator} (h : Reachable limit c) :
    c.depthLimit = limit := by
  induction h with
  | new => rfl
  | feed _ line n ih => rw [depthLimit_feed, ih]

theorem Reachable.forall_polys (hP : Poly.Preserved P)
    (hread : ∀ line n p, Poly.parse limit line n = .ok p → P p) {c : Calculator}
    (h : Reachable limit c) : ∀ p ∈ c.stack.polys, P p := by
  induction h with
  | new => exact List.forall_mem_nil P
  | @feed c hc line n ih =>
    rcases feed_cases c line n with hsame | ⟨s, output, hstep, hnext⟩
    · rw [hsame]
      exact ih
    -- The reader still has the limit that it began with.
    · rw [← hc.depthLimit_eq] at hread
      rw [hnext]
      exact forall_step hP hread ih hstep

/-! ## The limit of the reader -/

theorem preserved_fits (d : Nat) : Poly.Preserved (Poly.Fits d) where
  zero := .zero
  neg _ hp := hp.neg
  add _ _ hp hq := hp.add hq
  sub _ _ hp hq := hp.sub hq
  mul _ _ hp hq := hp.mul hq
  evalFirst x _ hp := hp.evalFirst x
  compose p _ _ hqs := .compose p hqs

theorem fits_of_parse {cs : List Char} {line : Nat} {p : Poly}
    (h : Poly.parse limit cs line = .ok p) : p.Fits limit := by
  have hread := parse_ok_iff.mp h
  exact ⟨Poly.parseWithin_isCanonical hread, Poly.parseWithin_depth_le hread⟩

theorem Reachable.fits {c : Calculator} (h : Reachable limit c) :
    ∀ p ∈ c.stack.polys, p.Fits limit :=
  h.forall_polys (preserved_fits limit) fun _ _ _ => fits_of_parse

/-- In every state that a new calculator can get into, whatever lines it is fed, the polynomials on
    its stack are canonical and no deeper than the limit of its reader. -/
theorem Reachable.isCanonical_and_depth_le {c : Calculator} (h : Reachable limit c) :
    ∀ p ∈ c.stack.polys, p.isCanonical = true ∧ p.depth ≤ limit := by
  intro p hp
  have hfits := h.fits p hp
  exact ⟨hfits.isCanonical, hfits.depth_le⟩

/-- The variable `x₁` is squared, between a line that lacks operands and one with a bracket left
    open. -/
def squareLines : List (List Char) :=
  ["ADD".toList, "((1,1),0)".toList, "CLONE".toList, "MUL".toList, "(1,1".toList]

theorem isCanonical_and_depth_le_squareLines :
    Reachable 2 ((new 2).feedAll 1 squareLines).1 ∧
      ((new 2).feedAll 1 squareLines).1.stack = ⟨[.sum [⟨.sum [⟨.coeff 1, 2⟩], 0⟩]]⟩ ∧
      ∀ p ∈ ((new 2).feedAll 1 squareLines).1.stack.polys, p.isCanonical = true ∧ p.depth ≤ 2 := by
  have hreach : Reachable 2 ((new 2).feedAll 1 squareLines).1 := Reachable.new.feedAll 1 _
  have hadd : (new 2).feed "ADD".toList 1 = (new 2, .error .stackUnderflow) := by rfl
  have hexp : (Poly.var 1).ExponentsAtMost 2147483647 := by
    simp [Poly.var, Poly.ExponentsAtMost, Poly.EverySum, Poly.EveryCoef]
  have hparse : Poly.parse 2 (Poly.var 1).render 2 = .ok (.var 1) :=
    parse_ok_iff.mpr (Poly.parseWithin_render_of_isCanonical (by decide) hexp (by decide))
  have hrender : (Poly.var 1).render = "((1,1),0)".toList := by decide
  have hread : (new 2).feed "((1,1),0)".toList 2 = (⟨⟨[.var 1]⟩, 2⟩, .ok none) := by
    rw [← hrender]
    exact feed_literal rfl hparse
  have hclone : feed ⟨⟨[.var 1]⟩, 2⟩ "CLONE".toList 3 = (⟨⟨[.var 1, .var 1]⟩, 2⟩, .ok none) := by
    rfl
  have hmul : feed ⟨⟨[.var 1, .var 1]⟩, 2⟩ "MUL".toList 4 =
      (⟨⟨[.sum [⟨.sum [⟨.coeff 1, 2⟩], 0⟩]]⟩, 2⟩, .ok none) := by
    rfl
  have hopen : feed ⟨⟨[.sum [⟨.sum [⟨.coeff 1, 2⟩], 0⟩]]⟩, 2⟩ "(1,1".toList 5 =
      (⟨⟨[.sum [⟨.sum [⟨.coeff 1, 2⟩], 0⟩]]⟩, 2⟩,
        .error (.wrongPoly ⟨5, .malformed .unbalanced⟩)) := by
    rfl
  have hstack : ((new 2).feedAll 1 squareLines).1.stack =
      ⟨[.sum [⟨.sum [⟨.coeff 1, 2⟩], 0⟩]]⟩ := by
    simp only [squareLines, feedAll, hadd, hread, hclone, hmul, hopen]
  exact ⟨hreach, hstack, hreach.isCanonical_and_depth_le⟩

end Calculator

end PolyCalc
