import PolyCalc.Poly.Printer
import PolyCalc.Proofs.Poly.Reading
import PolyCalc.Proofs.Poly.Terms

set_option autoImplicit false

/-! # Reading what was written

A tree without empty sums is written as a text of the grammar, and the text denotes the tree
(`derives_render`, `toPoly_toExpr`). So the reader gives its canonical form back, if the tree is
within the limits of the reader (`parseWithin_render_iff`). What the reader returns is within these
limits: a canonical form is no deeper than the tree it is made from and has no greater exponents. -/

namespace PolyCalc

open Text

variable {limit levels : Nat}

namespace Poly

/-! ## Trees as expressions -/

mutual

/-- What the written form of a tree says. -/
def toExpr : Poly → Expr
  | .coeff c => .number c.toInt
  | .sum ms => .sum (toTerms ms)

/-- What the written forms of monomials say. -/
def toTerms : List (Mono Poly) → List (Expr × Nat)
  | [] => []
  | ⟨p, e⟩ :: ms => (p.toExpr, e.toNat) :: toTerms ms

end

mutual

theorem toPoly_toExpr : ∀ p : Poly, p.toExpr.toPoly = p
  | .coeff c => by rw [toExpr, Expr.toPoly, Int64.ofInt_toInt]
  | .sum ms => by rw [toExpr, Expr.toPoly, toMonos_toTerms ms]

theorem toMonos_toTerms : ∀ ms : List (Mono Poly), Expr.toMonos (toTerms ms) = ms
  | [] => rfl
  | ⟨p, e⟩ :: ms => by
    rw [toTerms, Expr.toMonos, toPoly_toExpr p, UInt32.ofNat_toNat, toMonos_toTerms ms]

end

theorem levels_toExpr (p : Poly) : p.toExpr.levels = p.depth := by
  rw [← Expr.depth_toPoly, toPoly_toExpr]

/-! ## Ranges -/

mutual

theorem exponentsAtMost_toPoly : ∀ t : Expr, t.InRange → t.toPoly.ExponentsAtMost 2147483647
  | .number _, _ => trivial
  | .sum ts, h => exponentsAtMost_toMonos ts h

theorem exponentsAtMost_toMonos : ∀ ts : List (Expr × Nat), Expr.AllInRange ts →
    (Poly.sum (Expr.toMonos ts)).ExponentsAtMost 2147483647
  | [], _ => ⟨by simp [Expr.toMonos], trivial⟩
  | (p, n) :: ts, ⟨⟨hp, hn⟩, hts⟩ => by
    obtain ⟨hexp, hcoef⟩ := exponentsAtMost_toMonos ts hts
    refine ⟨List.forall_mem_cons.mpr ⟨?_, hexp⟩, exponentsAtMost_toPoly p hp, hcoef⟩
    rw [UInt32.toNat_ofNat']
    exact (Nat.mod_le _ _).trans hn

end

mutual

theorem inRange_toExpr : ∀ p : Poly, p.ExponentsAtMost 2147483647 → p.toExpr.InRange
  | .coeff c, _ => ⟨c.le_toInt, Int.le_of_lt_add_one c.toInt_lt⟩
  | .sum ms, ⟨hexp, hcoef⟩ => allInRange_toTerms ms hexp hcoef

theorem allInRange_toTerms : ∀ ms : List (Mono Poly), (∀ m ∈ ms, m.exp.toNat ≤ 2147483647) →
    EveryCoef (∀ m ∈ ·, m.exp.toNat ≤ 2147483647) ms → Expr.AllInRange (toTerms ms)
  | [], _, _ => trivial
  | ⟨p, _⟩ :: ms, hexp, ⟨hp, hcoef⟩ => by
    obtain ⟨he, hexp⟩ := List.forall_mem_cons.mp hexp
    exact ⟨⟨inRange_toExpr p hp, he⟩, allInRange_toTerms ms hexp hcoef⟩

end

theorem inRange_toExpr_iff {p : Poly} : p.toExpr.InRange ↔ p.ExponentsAtMost 2147483647 := by
  refine ⟨fun h => ?_, inRange_toExpr p⟩
  have hexp := exponentsAtMost_toPoly p.toExpr h
  rwa [toPoly_toExpr] at hexp

/-! ## Written forms derive -/

/-- No sum in the tree is empty. -/
def NoEmptySum : Poly → Prop := EverySum (· ≠ [])

theorem noEmptySum_of_isCanonical {p : Poly} (hp : p.isCanonical = true) : p.NoEmptySum := by
  induction p using induct with
  | coeff c => trivial
  | sum ms ih =>
    obtain ⟨hne, -, hcoef, -⟩ := isCanonical_sum.mp hp
    exact ⟨hne, everyCoef_iff.mpr fun m hm => ih m hm (hcoef m hm).2⟩

mutual

theorem derives_render : ∀ p : Poly, p.NoEmptySum → Derives p.render p.toExpr
  | .coeff c, _ => .constant (isInteger_writeInt c.toInt)
  | .sum ms, ⟨hne, hcoef⟩ => .sum (derivesSum_renderMonos ms hne hcoef)

theorem derivesSum_renderMonos : ∀ ms : List (Mono Poly), ms ≠ [] → EveryCoef (· ≠ []) ms →
    DerivesSum (renderMonos ms) (toTerms ms)
  | [], hne, _ => absurd rfl hne
  | [⟨p, e⟩], _, ⟨hp, _⟩ => .last (.mk (derives_render p hp) (isNatural_writeNat e.toNat))
  | ⟨p, e⟩ :: m :: ms, _, ⟨hp, hcoef⟩ =>
    .more (.mk (derives_render p hp) (isNatural_writeNat e.toNat))
      (derivesSum_renderMonos (m :: ms) (List.cons_ne_nil m ms) hcoef)

end

/-! ## Round trips -/

/-- What reading makes of a written tree: its canonical form, and only within the limits. -/
theorem parseWithin_render_iff {p q : Poly} (hp : p.NoEmptySum) :
    parseWithin limit levels p.render = .ok q ↔
      p.ExponentsAtMost 2147483647 ∧ p.depth ≤ levels ∧ q = p.normalize := by
  rw [parseWithin_ok_iff]
  constructor
  -- Whatever the reader has found in the text, the text says only one thing.
  · rintro ⟨t, ht, hrange, hlevels, rfl⟩
    obtain rfl : t = p.toExpr := ht.unique (derives_render p hp)
    rw [levels_toExpr] at hlevels
    exact ⟨inRange_toExpr_iff.mp hrange, hlevels, by rw [toPoly_toExpr]⟩
  · rintro ⟨hexp, hdepth, rfl⟩
    refine ⟨p.toExpr, derives_render p hp, inRange_toExpr_iff.mpr hexp, ?_, by rw [toPoly_toExpr]⟩
    rwa [levels_toExpr]

theorem parseWithin_isCanonical {cs : List Char} {p : Poly}
    (h : parseWithin limit levels cs = .ok p) : p.isCanonical = true := by
  obtain ⟨t, -, -, -, rfl⟩ := parseWithin_ok_iff.mp h
  exact isCanonical_normalize t.toPoly

/-- What the reader returns has no more nested sums than it admits. -/
theorem parseWithin_depth_le {cs : List Char} {p : Poly}
    (h : parseWithin limit levels cs = .ok p) : p.depth ≤ levels := by
  obtain ⟨t, -, -, hlevels, rfl⟩ := parseWithin_ok_iff.mp h
  calc t.toPoly.normalize.depth
      ≤ t.toPoly.depth := depth_normalize_le t.toPoly
    _ = t.levels := Expr.depth_toPoly t
    _ ≤ levels := hlevels

/-- What the reader returns has no greater exponents than it admits. -/
theorem parseWithin_exponentsAtMost {cs : List Char} {p : Poly}
    (h : parseWithin limit levels cs = .ok p) : p.ExponentsAtMost 2147483647 := by
  obtain ⟨t, -, hrange, -, rfl⟩ := parseWithin_ok_iff.mp h
  exact exponentsAtMost_normalize (exponentsAtMost_toPoly t hrange)

/-- A canonical tree within the limits is read back as it was written. -/
theorem parseWithin_render_of_isCanonical {p : Poly} (hp : p.isCanonical = true)
    (hexp : p.ExponentsAtMost 2147483647) (hdepth : p.depth ≤ levels) :
    parseWithin limit levels p.render = .ok p :=
  (parseWithin_render_iff (noEmptySum_of_isCanonical hp)).mpr
    ⟨hexp, hdepth, (normalize_eq_self hp).symm⟩

/-- Reading what was written normalises it: a tree without empty sums, within the limits of the
    reader, comes back in canonical form, and a canonical tree as it was. What was read from any
    text is such a tree for the same reader. -/
theorem parse_render (limit : Nat) :
    (∀ (p : Poly) (line : Nat), p.NoEmptySum → p.ExponentsAtMost 2147483647 → p.depth ≤ limit →
        parse limit p.render line = .ok p.normalize) ∧
      (∀ (p : Poly) (line : Nat), p.isCanonical = true → p.ExponentsAtMost 2147483647 →
        p.depth ≤ limit → parse limit p.render line = .ok p) ∧
      ∀ (cs : List Char) (p : Poly) (line line' : Nat), parse limit cs line = .ok p →
        parse limit p.render line' = .ok p := by
  refine ⟨fun p line hp hexp hdepth => ?_, fun p line hp hexp hdepth => ?_,
    fun cs p line line' h => ?_⟩
  · exact parse_ok_iff.mpr ((parseWithin_render_iff hp).mpr ⟨hexp, hdepth, rfl⟩)
  · exact parse_ok_iff.mpr (parseWithin_render_of_isCanonical hp hexp hdepth)
  · have hread := parse_ok_iff.mp h
    exact parse_ok_iff.mpr (parseWithin_render_of_isCanonical (parseWithin_isCanonical hread)
      (parseWithin_exponentsAtMost hread) (parseWithin_depth_le hread))

/-- A tree out of order, with a zero and with two monomials of one exponent. -/
def unordered : Poly :=
  .sum [⟨.sum [⟨.coeff 0, 5⟩], 3⟩, ⟨.coeff Int64.minValue, 2147483647⟩, ⟨.sum [⟨.coeff 7, 0⟩], 3⟩]

/-- The canonical form of `unordered`. -/
def ordered : Poly := .sum [⟨.coeff 7, 3⟩, ⟨.coeff Int64.minValue, 2147483647⟩]

theorem parse_render_unordered :
    unordered.NoEmptySum ∧ unordered.ExponentsAtMost 2147483647 ∧ unordered.depth ≤ 2 ∧
      parse 2 unordered.render 1 = .ok ordered ∧
      ordered.isCanonical = true ∧ ordered.ExponentsAtMost 2147483647 ∧ ordered.depth ≤ 1 ∧
      parse 1 ordered.render 1 = .ok ordered ∧
      parse 2 nestedText 1 = .ok (var 0) ∧ parse 2 (var 0).render 2 = .ok (var 0) := by
  have hne : unordered.NoEmptySum := by simp [unordered, NoEmptySum, EverySum, EveryCoef]
  have hexp : unordered.ExponentsAtMost 2147483647 := by
    simp [unordered, ExponentsAtMost, EverySum, EveryCoef]
  have hdepth : unordered.depth ≤ 2 := by decide
  have hnormal : unordered.normalize = ordered := by decide
  have hcanonical : ordered.isCanonical = true := by decide
  have hexp' : ordered.ExponentsAtMost 2147483647 := by
    simp [ordered, ExponentsAtMost, EverySum, EveryCoef]
  have hdepth' : ordered.depth ≤ 1 := by decide
  have hread : parse 2 nestedText 1 = .ok (var 0) :=
    parse_ok_iff.mpr (parseWithin_ok_iff.mpr
      ⟨nestedExpr, derives_nestedText, inRange_nestedExpr, by decide, by decide⟩)
  refine ⟨hne, hexp, hdepth, ?_, hcanonical, hexp', hdepth', ?_, hread, ?_⟩
  · rw [← hnormal]
    exact (parse_render 2).1 unordered 1 hne hexp hdepth
  · exact (parse_render 1).2.1 ordered 1 hcanonical hexp' hdepth'
  · exact (parse_render 2).2.2 nestedText (var 0) 1 2 hread

end Poly

end PolyCalc
