import PolyCalc.Poly.Degree
import PolyCalc.Proofs.Poly.Paths

set_option autoImplicit false

/-! # Degrees are those of the terms

A degree is the greatest weight of a term: of the sum of all its exponents, or of its exponent of
one variable. Computed level by level it is the greatest of a list at each sum, where the weight of
a monomial is that of its coefficient with its own exponent put in front (`isMaxWeight_sum`). Two
things could go wrong and do not in canonical form:

- the `-1` for zero would count as a degree one too low, but no coefficient is zero;
- a term that is written could be cancelled by another one, but with increasing exponents none is
  (`cons_mem_terms`).

Sums of exponents are signed 32-bit integers. They are exact up to `2³¹ - 1`, which is all that is
asked of the polynomial. -/

namespace PolyCalc

/-! ## Where signed integers are exact -/

namespace Wrapping

theorem toInt_toInt32_of_le {e : UInt32} (h : e.toNat ≤ 2147483647) : e.toInt32.toInt = e.toNat := by
  have hsmall : 2 * e.toBitVec.toNat < 2 ^ 32 := by
    show 2 * e.toNat < 2 ^ 32
    omega
  rw [← Int32.toInt_toBitVec, UInt32.toBitVec_toInt32, BitVec.toInt_eq_toNat_of_lt hsmall]
  rfl

theorem toInt_add_of_le {a b : Int32} (ha : 0 ≤ a.toInt) (hb : 0 ≤ b.toInt)
    (h : a.toInt + b.toInt ≤ 2147483647) : (a + b).toInt = a.toInt + b.toInt := by
  rw [Int32.toInt_add]
  apply Int.bmod_eq_of_le_mul_two
  · omega
  · omega

end Wrapping

open Wrapping

namespace Exponents

theorem degree_toFinsupp (es : List UInt32) :
    degree es.toFinsupp = (es.map UInt32.toNat).sum := by
  induction es with
  | nil => simp [degree_zero]
  | cons e es ih =>
    rw [toFinsupp_eq_cons, degree_cons, List.headD_cons, List.tail_cons, ih, List.map_cons,
      List.sum_cons]

end Exponents

namespace Poly

/-! ## The greatest of a list -/

/-- The greatest of a list of degrees, if it is not empty. -/
def greatest (ds : List Int32) : Option Int32 := ds.foldr (fun d b => some (maxDegree d b)) none

theorem maxExp_eq_greatest (ms : List (Mono Poly)) :
    maxExp ms = greatest (ms.map (·.exp.toInt32)) := by
  induction ms with
  | nil => rfl
  | cons m ms ih => rw [maxExp, ih]; rfl

theorem expBoundMonos_eq_greatest (ms : List (Mono Poly)) (k : ℕ) :
    expBoundMonos ms k = greatest (ms.map (·.coef.expBound k)) := by
  induction ms with
  | nil => rfl
  | cons m ms ih => rw [expBoundMonos, ih]; rfl

theorem degreeMonos_eq_greatest {ms : List (Mono Poly)} (h : ∀ m ∈ ms, m.coef.isZero = false) :
    degreeMonos ms = greatest (ms.map fun m => m.exp.toInt32 + m.coef.degree) := by
  induction ms with
  | nil => rfl
  | cons m ms ih =>
    obtain ⟨hm, hms⟩ := List.forall_mem_cons.mp h
    rw [degreeMonos, hm, if_neg Bool.false_ne_true, ih hms]
    rfl

theorem toInt_maxDegree (d b : Int32) : (maxDegree d (some b)).toInt = max d.toInt b.toInt := by
  rw [maxDegree]
  split_ifs with h
  · rw [Int32.lt_iff_toInt_lt] at h
    omega
  · rw [Int32.lt_iff_toInt_lt] at h
    omega

theorem exists_greatest {ds : List Int32} (h : ds ≠ []) :
    ∃ d, greatest ds = some d ∧ IsGreatest (Int32.toInt '' {b | b ∈ ds}) d.toInt := by
  induction ds with
  | nil => exact absurd rfl h
  | cons d ds ih =>
    by_cases hds : ds = []
    · refine ⟨d, by rw [hds]; rfl, ?_⟩
      simp [hds, isGreatest_singleton]
    · obtain ⟨b, hb, hmax⟩ := ih hds
      refine ⟨maxDegree d (some b), ?_, ?_⟩
      · rw [← hb]
        rfl
      · have hset : {c | c ∈ d :: ds} = insert d {c | c ∈ ds} := by
          ext c
          simp
        rw [hset, Set.image_insert_eq, toInt_maxDegree]
        exact hmax.insert d.toInt

/-! ## The greatest weight of a term -/

/-- Of the terms of the polynomial, that is those with a coefficient other than zero, the greatest
    weight is `d`. -/
structure IsMaxWeight (w : Exponents → ℕ) (p : Poly) (d : Int32) : Prop where
  attained : ∃ e ∈ p.terms, d.toInt = w e
  bound : ∀ e ∈ p.terms, (w e : ℤ) ≤ d.toInt

variable {w : Exponents → ℕ} {p : Poly} {d : Int32} {ms : List (Mono Poly)}

theorem isMaxWeight_coeff {c : Int64} (hc : c ≠ 0) (hw : w 0 = 0) : IsMaxWeight w (coeff c) 0 := by
  have hmem : (0 : Exponents) ∈ (coeff c).terms := by
    rw [mem_terms, coefAt_coeff, if_pos rfl]
    exact hc
  refine ⟨⟨0, hmem, ?_⟩, ?_⟩
  · rw [hw]
    rfl
  · intro e he
    rw [eq_zero_of_mem_terms_coeff he, hw]
    exact le_rfl

/-- At a sum the greatest weight is that of one of the monomials, whose terms get their exponent in
    front of those of the coefficient. -/
theorem isMaxWeight_sum (hp : (sum ms).isCanonical = true) {f : Mono Poly → Int32} (b : Int32)
    (h : ∀ m ∈ ms, IsMaxWeight (fun e => w (Exponents.cons m.exp e)) m.coef (f m)) :
    IsMaxWeight w (sum ms) ((greatest (ms.map f)).getD b) := by
  obtain ⟨hnil, hinc, -, -⟩ := isCanonical_sum.mp hp
  have hne : ms.map f ≠ [] := by simpa using hnil
  obtain ⟨d, hd, hattained, hbound⟩ := exists_greatest hne
  rw [hd, Option.getD_some]
  constructor
  · obtain ⟨b, hb, heq⟩ := hattained
    obtain ⟨m, hm, rfl⟩ := List.mem_map.mp hb
    obtain ⟨e, he, hweight⟩ := (h m hm).attained
    exact ⟨_, cons_mem_terms hinc hm he, heq ▸ hweight⟩
  · intro e he
    obtain ⟨x, e', rfl⟩ := e.exists_eq_cons
    obtain ⟨m, hm, rfl, he'⟩ := exists_of_cons_mem_terms he
    have hcoef := (h m hm).bound e' he'
    have hmax := hbound ⟨f m, List.mem_map_of_mem hm, rfl⟩
    exact hcoef.trans hmax

theorem toNat_add_degree_le (hp : (sum ms).isCanonical = true) {m : Mono Poly} (hm : m ∈ ms)
    {e : Exponents} (he : e ∈ m.coef.terms) :
    m.exp.toNat + e.degree ≤ (sum ms).totalDegree := by
  rw [← Exponents.degree_cons]
  exact Finset.le_sup (cons_mem_terms (isCanonical_sum.mp hp).2.1 hm he)

theorem totalDegree_coef_le (hp : (sum ms).isCanonical = true) {m : Mono Poly} (hm : m ∈ ms) :
    m.coef.totalDegree ≤ (sum ms).totalDegree := by
  refine Finset.sup_le fun e he => ?_
  exact (Nat.le_add_left _ _).trans (toNat_add_degree_le hp hm he)

/-! ## The two degrees -/

theorem isMaxWeight_degree (hp : p.isCanonical = true) (hz : p.isZero = false)
    (h : p.totalDegree ≤ 2147483647) : IsMaxWeight Exponents.degree p p.degree := by
  induction p using induct with
  | coeff c =>
    have hc : c ≠ 0 := by simpa [isZero] using hz
    rw [degree, if_neg hc]
    exact isMaxWeight_coeff hc Exponents.degree_zero
  | sum ms ih =>
    have hcoef := (isCanonical_sum.mp hp).2.2.1
    rw [degree, degreeMonos_eq_greatest fun m hm => (hcoef m hm).1]
    apply isMaxWeight_sum hp
    intro m hm
    have hmax := ih m hm (hcoef m hm).2 (hcoef m hm).1 ((totalDegree_coef_le hp hm).trans h)
    obtain ⟨e, he, hdeg⟩ := hmax.attained
    -- The greatest degree of the coefficient is attained, so with the exponent it stays in range.
    have hrange := (toNat_add_degree_le hp hm he).trans h
    have hexp : m.exp.toInt32.toInt = m.exp.toNat := toInt_toInt32_of_le (by omega)
    have hsum : (m.exp.toInt32 + m.coef.degree).toInt = m.exp.toNat + m.coef.degree.toInt := by
      rw [← hexp]
      exact toInt_add_of_le (by omega) (by omega) (by omega)
    simp only [Exponents.degree_cons]
    refine ⟨⟨e, he, by push_cast; omega⟩, ?_⟩
    intro e' he'
    have hle := hmax.bound e' he'
    push_cast
    omega

theorem isMaxWeight_expBound (hp : p.isCanonical = true) (hz : p.isZero = false)
    (h : p.totalDegree ≤ 2147483647) (k : ℕ) :
    IsMaxWeight (fun e => (e k).toNat) p (p.expBound k) := by
  induction p using induct generalizing k with
  | coeff c =>
    have hc : c ≠ 0 := by simpa [isZero] using hz
    rw [expBound]
    exact isMaxWeight_coeff hc rfl
  | sum ms ih =>
    have hcoef := (isCanonical_sum.mp hp).2.2.1
    cases k with
    | zero =>
      rw [expBound, maxExp_eq_greatest]
      apply isMaxWeight_sum hp
      intro m hm
      obtain ⟨e, he⟩ := terms_nonempty (hcoef m hm).2 (hcoef m hm).1
      have hrange := (toNat_add_degree_le hp hm he).trans h
      have hexp : m.exp.toInt32.toInt = m.exp.toNat := toInt_toInt32_of_le (by omega)
      simp only [Exponents.cons_apply_zero]
      exact ⟨⟨e, he, hexp⟩, fun _ _ => hexp.ge⟩
    | succ k =>
      rw [expBound, expBoundMonos_eq_greatest]
      apply isMaxWeight_sum hp
      intro m hm
      simp only [Exponents.cons_apply_succ]
      exact ih m hm (hcoef m hm).2 (hcoef m hm).1 ((totalDegree_coef_le hp hm).trans h) k

theorem isMaxWeight_degreeIn (hp : p.isCanonical = true) (hz : p.isZero = false)
    (h : p.totalDegree ≤ 2147483647) (k : ℕ) :
    IsMaxWeight (fun e => (e k).toNat) p (p.degreeIn k) := by
  rw [degreeIn, hz, if_neg Bool.false_ne_true]
  exact isMaxWeight_expBound hp hz h k

theorem IsMaxWeight.ne_neg_one (h : IsMaxWeight w p d) : d ≠ -1 := by
  rintro rfl
  obtain ⟨e, -, he⟩ := h.attained
  have hneg : (-1 : Int32).toInt = -1 := by decide
  omega

/-- Terms that weigh more have a greater degree. -/
theorem IsMaxWeight.le_of_le {v : Exponents → ℕ} {b : Int32} (hv : IsMaxWeight v p b)
    (hw : IsMaxWeight w p d) (h : ∀ e, v e ≤ w e) : b ≤ d := by
  obtain ⟨e, he, hb⟩ := hv.attained
  have hle := hw.bound e he
  have hweight := h e
  rw [Int32.le_iff_toInt_le, hb]
  omega

/-- The exponents on the paths bound the total degree. -/
theorem totalDegree_le_of_paths {n : ℕ} (h : ∀ l ∈ p.paths, (l.exps.map UInt32.toNat).sum ≤ n) :
    p.totalDegree ≤ n := by
  rw [totalDegree_le_iff]
  intro e he
  obtain ⟨l, hl, rfl⟩ := exists_path_of_mem_terms he
  rw [Exponents.degree_toFinsupp]
  exact h l hl

/-- The degrees of a canonical polynomial are those of its terms, as long as on no path the
    exponents add up to `2³¹` or more: `-1` for zero, and otherwise the greatest sum of the
    exponents of a term, and for every variable its greatest exponent in a term. So `-1` marks zero
    alone, and no degree in one variable is above the total degree. -/
theorem degree_degreeIn_isMaxWeight (hp : p.isCanonical = true)
    (h : ∀ l ∈ p.paths, (l.exps.map UInt32.toNat).sum ≤ 2147483647) :
    (p = zero → p.degree = -1 ∧ ∀ k, p.degreeIn k = -1) ∧
      (p ≠ zero → IsMaxWeight Exponents.degree p p.degree ∧
        ∀ k, IsMaxWeight (fun e => (e k).toNat) p (p.degreeIn k)) ∧
      (p.degree = -1 ↔ p = zero) ∧ (∀ k, p.degreeIn k = -1 ↔ p = zero) ∧
      ∀ k, p.degreeIn k ≤ p.degree := by
  by_cases h0 : p = zero
  · subst h0
    exact ⟨fun _ => ⟨rfl, fun _ => rfl⟩, fun hne => absurd rfl hne, iff_of_true rfl rfl,
      fun _ => iff_of_true rfl rfl, fun _ => Int32.le_refl _⟩
  · have hz : p.isZero = false := by
      rw [Bool.eq_false_iff, Ne, isZero_iff_eq_zero hp]
      exact h0
    have hrange := totalDegree_le_of_paths h
    have hdegree := isMaxWeight_degree hp hz hrange
    have hdegreeIn := isMaxWeight_degreeIn hp hz hrange
    refine ⟨fun hzero => absurd hzero h0, fun _ => ⟨hdegree, hdegreeIn⟩,
      iff_of_false hdegree.ne_neg_one h0, ?_, ?_⟩
    · intro k
      exact iff_of_false (hdegreeIn k).ne_neg_one h0
    · intro k
      exact (hdegreeIn k).le_of_le hdegree fun e => e.toNat_le_degree k

/-- The polynomial `x₁ ^ (2³¹ - 2) · x₀ + x₀ ^ (2³¹ - 1)`: both terms have the greatest degree that
    is exact. -/
def highest : Poly := .sum [⟨.sum [⟨.coeff 1, 2147483646⟩], 1⟩, ⟨.coeff 1, 2147483647⟩]

theorem degree_degreeIn_isMaxWeight_highest :
    highest.isCanonical = true ∧
      (∀ l ∈ highest.paths, (l.exps.map UInt32.toNat).sum ≤ 2147483647) ∧ highest ≠ zero ∧
      IsMaxWeight Exponents.degree highest highest.degree ∧ highest.degree = 2147483647 ∧
      IsMaxWeight (fun e => (e 1).toNat) highest (highest.degreeIn 1) ∧
      highest.degreeIn 1 = 2147483646 ∧ highest.degreeIn 2 = 0 := by
  have hp : highest.isCanonical = true := by decide
  have hpaths : ∀ l ∈ highest.paths, (l.exps.map UInt32.toNat).sum ≤ 2147483647 := by
    decide +kernel
  have hne : highest ≠ zero := by decide
  have hmax := (degree_degreeIn_isMaxWeight hp hpaths).2.1 hne
  exact ⟨hp, hpaths, hne, hmax.1, by decide, hmax.2 1, by decide, by decide⟩

/-- One more in the exponent and the degree wraps. -/
example : (sum [⟨.coeff 1, 2147483648⟩]).degree = -2147483648 := by decide

end Poly

end PolyCalc
