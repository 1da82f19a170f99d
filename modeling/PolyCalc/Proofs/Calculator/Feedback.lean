import PolyCalc.Proofs.Calculator.Reachable

set_option autoImplicit false

/-! # Feeding back what was printed

What the grammar derives is a line that the calculator takes for a polynomial: it begins with a
digit, a minus sign or a bracket (`ofLine_of_derives`). So the written form of a polynomial
on the stack can be fed back, and it is pushed again (`feed_render`). Only its exponents may have
outgrown those that are read, and then the line fails for that reason
(`feed_render_of_not_exponentsAtMost`): the depth of what is on the stack never exceeds the limit of
the reader, and coefficients are always in range. -/

namespace PolyCalc

namespace Calculator

open Text

/-! ## Lines that are polynomials -/

theorem ofLine_of_isInteger {cs : List Char} {i : Int} (h : IsInteger cs i) :
    LineKind.ofLine cs = .literal := by
  obtain ⟨c, rest, rfl⟩ := List.exists_cons_of_ne_nil h.ne_nil
  rw [LineKind.ofLine]
  rcases h.isDigit c List.mem_cons_self with rfl | hdigit
  · decide
  · have hcomment : c ≠ '#' := by
      rintro rfl
      exact absurd hdigit (by decide)
    rw [if_neg hcomment, isAlpha_of_isDigit hdigit]
    rfl

theorem ofLine_of_derives {cs : List Char} {t : Expr} (h : Derives cs t) :
    LineKind.ofLine cs = .literal := by
  cases h with
  | constant h => exact ofLine_of_isInteger h
  | sum h =>
    obtain ⟨rest, rfl⟩ := List.head?_eq_some_iff.mp h.head?_eq_open
    rfl

/-! ## Written forms as lines -/

variable {limit : Nat} {c : Calculator} {p : Poly}

theorem ofLine_render (hp : p.isCanonical = true) : LineKind.ofLine p.render = .literal :=
  ofLine_of_derives (Poly.derives_render p (Poly.noEmptySum_of_isCanonical hp))

/-- The written form of a polynomial whose exponents are read pushes that polynomial. -/
theorem feed_render (hp : p.Fits c.depthLimit) (hexp : p.ExponentsAtMost 2147483647) (n : Nat) :
    c.feed p.render n = ({ c with stack := c.stack.push p }, .ok none) := by
  refine feed_literal (ofLine_render hp.isCanonical) (parse_ok_iff.mpr ?_)
  exact Poly.parseWithin_render_of_isCanonical hp.isCanonical hexp hp.depth_le

/-- The written form of a polynomial with an exponent that is not read fails for its range. -/
theorem feed_render_of_not_exponentsAtMost (hp : p.Fits c.depthLimit)
    (hexp : ¬p.ExponentsAtMost 2147483647) (n : Nat) :
    ∃ kind text, c.feed p.render n = (c, .error (.wrongPoly ⟨n, .outOfRange kind text⟩)) := by
  have hderives := Poly.derives_render p (Poly.noEmptySum_of_isCanonical hp.isCanonical)
  have hreads := hderives.reads c.depthLimit c.depthLimit
  rw [Poly.inRange_toExpr_iff, Poly.levels_toExpr] at hreads
  cases hresult : Poly.parseWithin c.depthLimit c.depthLimit p.render with
  | ok q =>
    rw [hresult] at hreads
    exact absurd hreads.2.2 hexp
  | error fault =>
    rw [hresult] at hreads
    rcases hreads with ⟨-, hdeep⟩ | ⟨⟨kind, text, rfl⟩, -⟩
    · exact absurd hp.depth_le (Nat.not_le_of_lt hdeep)
    · refine ⟨kind, text, feed_of_error ?_⟩
      have hparse : Poly.parse c.depthLimit p.render n = .error ⟨n, .outOfRange kind text⟩ :=
        parse_error_iff.mpr ⟨_, hresult, rfl⟩
      simp only [step, ofLine_render hp.isCanonical, hparse]

theorem feed_print (htop : c.stack.top? = some p) (n : Nat) :
    c.feed "PRINT".toList n = (c, .ok (some p.render)) := by
  have hkind : LineKind.ofLine "PRINT".toList = .command := by decide
  have hparse : Command.parse "PRINT".toList = .ok .print := by decide
  refine feed_of_ok ?_
  simp only [step, hkind, hparse, execute, inspect, htop]

/-- What `PRINT` writes can be fed back. In every state that a new calculator can get into, the text
    it writes of the topmost polynomial is a line that pushes the same polynomial and prints
    nothing, if no exponent is above the greatest that is read; if one is, that line fails because
    a number is out of range, and leaves the calculator as it was. -/
theorem Reachable.feed_printed (h : Reachable limit c) (htop : c.stack.top? = some p)
    (m n : Nat) :
    c.feed "PRINT".toList m = (c, .ok (some p.render)) ∧
      (p.ExponentsAtMost 2147483647 →
        c.feed p.render n = ({ c with stack := c.stack.push p }, .ok none)) ∧
      (¬p.ExponentsAtMost 2147483647 →
        ∃ kind text, c.feed p.render n = (c, .error (.wrongPoly ⟨n, .outOfRange kind text⟩))) := by
  have hmem : p ∈ c.stack.polys := List.mem_of_head? htop
  have hp := h.fits p hmem
  rw [← h.depthLimit_eq] at hp
  exact ⟨feed_print htop m, fun hexp => feed_render hp hexp n,
    fun hexp => feed_render_of_not_exponentsAtMost hp hexp n⟩

/-- The greatest power of `x₀` that is read. -/
def greatestPower : Poly := .sum [⟨.coeff 1, 2147483647⟩]

/-- The square of the greatest power that is read: it is written, but not read. -/
def unreadablePower : Poly := .sum [⟨.coeff 1, 4294967294⟩]

theorem exponentsAtMost_greatestPower : greatestPower.ExponentsAtMost 2147483647 := by
  simp [greatestPower, Poly.ExponentsAtMost, Poly.EverySum, Poly.EveryCoef]

theorem reachable_greatestPower : Reachable 1 ⟨⟨[greatestPower]⟩, 1⟩ := by
  have hfits : greatestPower.Fits 1 := ⟨by decide, by decide⟩
  have hfeed := feed_render (c := new 1) hfits exponentsAtMost_greatestPower 1
  have hreach : Reachable 1 ((new 1).feed greatestPower.render 1).1 := Reachable.new.feed _ 1
  rwa [hfeed] at hreach

theorem reachable_unreadablePower : Reachable 1 ⟨⟨[unreadablePower]⟩, 1⟩ := by
  have hclone : feed ⟨⟨[greatestPower]⟩, 1⟩ "CLONE".toList 2 =
      (⟨⟨[greatestPower, greatestPower]⟩, 1⟩, .ok none) := by rfl
  have hmul : feed ⟨⟨[greatestPower, greatestPower]⟩, 1⟩ "MUL".toList 3 =
      (⟨⟨[unreadablePower]⟩, 1⟩, .ok none) := by rfl
  have hreach := (reachable_greatestPower.feed "CLONE".toList 2).feed "MUL".toList 3
  rwa [hclone, hmul] at hreach

theorem feed_printed_powers :
    Reachable 1 ⟨⟨[greatestPower]⟩, 1⟩ ∧ greatestPower.ExponentsAtMost 2147483647 ∧
      feed ⟨⟨[greatestPower]⟩, 1⟩ "PRINT".toList 4 =
        (⟨⟨[greatestPower]⟩, 1⟩, .ok (some greatestPower.render)) ∧
      feed ⟨⟨[greatestPower]⟩, 1⟩ greatestPower.render 5 =
        (⟨⟨[greatestPower, greatestPower]⟩, 1⟩, .ok none) ∧
      Reachable 1 ⟨⟨[unreadablePower]⟩, 1⟩ ∧ ¬unreadablePower.ExponentsAtMost 2147483647 ∧
      ∃ kind text, feed ⟨⟨[unreadablePower]⟩, 1⟩ unreadablePower.render 5 =
        (⟨⟨[unreadablePower]⟩, 1⟩, .error (.wrongPoly ⟨5, .outOfRange kind text⟩)) := by
  have hexp : ¬unreadablePower.ExponentsAtMost 2147483647 := by
    simp [unreadablePower, Poly.ExponentsAtMost, Poly.EverySum]
  obtain ⟨hprint, hread, -⟩ := reachable_greatestPower.feed_printed rfl 4 5
  obtain ⟨-, -, hfail⟩ := reachable_unreadablePower.feed_printed rfl 4 5
  exact ⟨reachable_greatestPower, exponentsAtMost_greatestPower, hprint,
    hread exponentsAtMost_greatestPower, reachable_unreadablePower, hexp, hfail hexp⟩

end Calculator

end PolyCalc
