import Mathlib.Algebra.MonoidAlgebra.Degree
import Mathlib.Algebra.Ring.Subring.Defs
import PolyCalc.Proofs.Poly.NormalForm

set_option autoImplicit false

/-! # Terms

A term of a polynomial is a sequence of exponents at which its coefficient is not zero. The terms
bound what a tree is made of: its depth is the number of variables that occur in them, and its
exponents are theirs. For a canonical polynomial both bounds are exact (`depth_le_of_mem_below`,
`exponentsAtMost_of_terms`), so a canonical result is no deeper than its operands as soon as it is
computed from them in the ring, where the polynomials in the first `d` variables are a subring. -/

namespace PolyCalc

open Wrapping

namespace Exponents

/-! ## Sequences of exponents -/

theorem exists_eq_cons (e : Exponents) : ∃ d e', e = cons d e' := by
  rw [← toFinsupp_toList e, toFinsupp_eq_cons]
  exact ⟨_, _, rfl⟩

theorem disjoint_single_shift (d : UInt32) (e : Exponents) :
    Disjoint (Finsupp.single 0 d).support (shift e).support := by
  rw [Finset.disjoint_left]
  intro i hi hi'
  have h0 : i = 0 := Finset.mem_singleton.mp (Finsupp.support_single_subset hi)
  rw [h0, Finsupp.mem_support_iff, shift_apply_zero] at hi'
  exact hi' rfl

/-- The sum of all exponents, as a natural number. -/
def degree (e : Exponents) : ℕ := e.sum fun _ d => d.toNat

theorem degree_zero : degree 0 = 0 := rfl

theorem degree_cons (d : UInt32) (e : Exponents) : degree (cons d e) = d.toNat + degree e := by
  rw [degree, cons, Finsupp.sum_add_index_of_disjoint (disjoint_single_shift d e),
    Finsupp.sum_single_index rfl]
  congr 1
  exact Finsupp.sum_mapDomain_index_inj Nat.succ_injective

theorem toNat_le_degree (e : Exponents) (i : ℕ) : (e i).toNat ≤ degree e := by
  by_cases h : e i = 0
  · rw [h]
    exact Nat.zero_le _
  · exact Finset.single_le_sum (f := fun i => (e i).toNat) (fun _ _ => Nat.zero_le _)
      (Finsupp.mem_support_iff.mpr h)

theorem degree_eq_sum {e : Exponents} {s : Finset ℕ} (h : e.support ⊆ s) :
    degree e = ∑ i ∈ s, (e i).toNat :=
  Finsupp.sum_of_support_subset e h _ fun _ _ => rfl

theorem degree_add_le (d e : Exponents) : degree (d + e) ≤ degree d + degree e := by
  have hd : d.support ⊆ d.support ∪ e.support := Finset.subset_union_left
  have he : e.support ⊆ d.support ∪ e.support := Finset.subset_union_right
  rw [degree_eq_sum Finsupp.support_add, degree_eq_sum hd, degree_eq_sum he,
    ← Finset.sum_add_distrib]
  refine Finset.sum_le_sum fun i _ => ?_
  rw [Finsupp.add_apply, UInt32.toNat_add]
  exact Nat.mod_le _ _

end Exponents

/-! ## Degree and variables of an expansion -/

/-- The greatest sum of exponents of a term, and zero if there is no term. -/
noncomputable def Expansion.degree (a : Expansion) : ℕ := a.coeff.support.sup Exponents.degree

/-- The expansions in which no variable from `x_d` on occurs. -/
def Expansion.below (d : ℕ) : Subring Expansion where
  carrier := {a | ∀ e ∈ a.coeff.support, ∀ i, d ≤ i → e i = 0}
  zero_mem' := by simp
  one_mem' := by
    intro e he i _
    have h0 : e = 0 := Finset.mem_singleton.mp (AddMonoidAlgebra.support_coeff_one_subset he)
    rw [h0, Finsupp.zero_apply]
  neg_mem' := by simp
  add_mem' := by
    intro a b ha hb e he
    rcases Finset.mem_union.mp (Finsupp.support_add he) with he | he
    · exact ha e he
    · exact hb e he
  mul_mem' := by
    intro a b ha hb e he i hi
    obtain ⟨x, hx, y, hy, rfl⟩ :=
      Finset.mem_add.mp (AddMonoidAlgebra.support_coeff_mul_subset a b he)
    rw [Finsupp.add_apply, ha x hx i hi, hb y hy i hi, add_zero]

namespace Poly

/-! ## Terms of trees -/

/-- The sequences of exponents at which the coefficient is not zero. -/
noncomputable def terms (p : Poly) : Finset Exponents := p.expand.coeff.support

theorem mem_terms {p : Poly} {e : Exponents} : e ∈ p.terms ↔ p.coefAt e ≠ 0 := by
  rw [terms, Finsupp.mem_support_iff, coeff_expand_eq_coefAt]

theorem eq_zero_of_mem_terms_coeff {c : Int64} {e : Exponents} (h : e ∈ (coeff c).terms) :
    e = 0 := by
  rw [mem_terms, coefAt_coeff] at h
  by_contra he
  exact h (if_neg he)

theorem exists_of_cons_mem_terms {ms : List (Mono Poly)} {d : UInt32} {e : Exponents}
    (h : Exponents.cons d e ∈ (sum ms).terms) : ∃ m ∈ ms, m.exp = d ∧ e ∈ m.coef.terms := by
  by_contra hno
  push Not at hno
  rw [mem_terms, coefAt_sum] at h
  refine h (List.sum_eq_zero fun x hx => ?_)
  obtain ⟨m, hm, rfl⟩ := List.mem_map.mp hx
  split_ifs with hd
  · by_contra hne
    exact hno m hm hd (mem_terms.mpr hne)
  · rfl

/-- Where exponents increase, the terms of a coefficient are not cancelled. -/
theorem cons_mem_terms {ms : List (Mono Poly)} (hinc : Mono.increasing ms = true) {m : Mono Poly}
    (hm : m ∈ ms) {e : Exponents} (he : e ∈ m.coef.terms) :
    Exponents.cons m.exp e ∈ (sum ms).terms := by
  have hlist : Exponents.cons m.exp e = (m.exp :: e.toList).toFinsupp := by
    rw [Exponents.toFinsupp_eq_cons, List.headD_cons, List.tail_cons, Exponents.toFinsupp_toList]
  rw [terms, Finsupp.mem_support_iff, hlist, coeff_expand, coef_sum_cons, coefMonos_of_mem hinc hm]
  exact mem_terms.mp he

theorem terms_nonempty {p : Poly} (hp : p.isCanonical = true) (h : p.isZero = false) :
    p.terms.Nonempty := by
  obtain ⟨es, hes⟩ := exists_coef_ne_zero hp h
  refine ⟨es.toFinsupp, Finsupp.mem_support_iff.mpr ?_⟩
  rw [coeff_expand]
  exact hes

/-! ## Depth -/

theorem expand_mem_below {p : Poly} {d : ℕ} (h : p.depth ≤ d) : p.expand ∈ Expansion.below d := by
  induction p using induct generalizing d with
  | coeff c =>
    intro e he i _
    rw [eq_zero_of_mem_terms_coeff he, Finsupp.zero_apply]
  | sum ms ih =>
    cases d with
    | zero => exact absurd h (layered_depth.not_sum ms)
    | succ d =>
      intro e he i hi
      obtain ⟨x, e', rfl⟩ := e.exists_eq_cons
      obtain ⟨m, hm, -, hmem⟩ := exists_of_cons_mem_terms he
      cases i with
      | zero => omega
      | succ i =>
        rw [Exponents.cons_apply_succ]
        exact ih m hm (depth_sum_le_iff.mp h m hm) e' hmem i (Nat.le_of_succ_le_succ hi)

/-- A canonical tree is no deeper than the variables in its terms need. -/
theorem depth_le_of_mem_below {p : Poly} {d : ℕ} (hp : p.isCanonical = true)
    (h : p.expand ∈ Expansion.below d) : p.depth ≤ d := by
  induction p using induct generalizing d with
  | coeff c => exact Nat.zero_le d
  | sum ms ih =>
    cases d with
    -- Without variables a canonical polynomial is a number.
    | zero =>
      obtain ⟨es, hall, hne⟩ := exists_coef_ne_zero_of_not_constant hp rfl
      have hmem : es.toFinsupp ∈ (sum ms).terms := by
        rw [terms, Finsupp.mem_support_iff, coeff_expand]
        exact hne
      have hzero : es.toFinsupp = 0 := Finsupp.ext fun i => h _ hmem i (Nat.zero_le i)
      rw [Exponents.toFinsupp_eq_zero_iff, hall] at hzero
      exact absurd hzero Bool.false_ne_true
    | succ d =>
      refine depth_sum_le_iff.mpr fun m hm => ih m hm (isCanonical_coef hp m hm) fun e he i hi => ?_
      have hmem := cons_mem_terms (isCanonical_sum.mp hp).2.1 hm he
      have hzero := h _ hmem (i + 1) (Nat.succ_le_succ hi)
      rwa [Exponents.cons_apply_succ] at hzero

/-! ## Exponents -/

mutual

/-- Every list of monomials in the tree has the property. -/
def EverySum (P : List (Mono Poly) → Prop) : Poly → Prop
  | .coeff _ => True
  | .sum ms => P ms ∧ EveryCoef P ms

/-- What `EverySum` says of the coefficients in a list. -/
def EveryCoef (P : List (Mono Poly) → Prop) : List (Mono Poly) → Prop
  | [] => True
  | ⟨p, _⟩ :: ms => EverySum P p ∧ EveryCoef P ms

end

theorem everyCoef_iff {P : List (Mono Poly) → Prop} {ms : List (Mono Poly)} :
    EveryCoef P ms ↔ ∀ m ∈ ms, EverySum P m.coef := by
  induction ms with
  | nil => simp [EveryCoef]
  | cons m ms ih => rw [EveryCoef, ih, List.forall_mem_cons]

/-- No exponent that is written in the tree is above `n`. -/
def ExponentsAtMost (n : ℕ) : Poly → Prop := EverySum (∀ m ∈ ·, m.exp.toNat ≤ n)

theorem toNat_le_of_mem_terms {p : Poly} {n : ℕ} (h : p.ExponentsAtMost n) {e : Exponents}
    (he : e ∈ p.terms) (i : ℕ) : (e i).toNat ≤ n := by
  induction p using induct generalizing e i with
  | coeff c =>
    rw [eq_zero_of_mem_terms_coeff he]
    exact Nat.zero_le n
  | sum ms ih =>
    obtain ⟨hexp, hcoef⟩ := h
    obtain ⟨d, e', rfl⟩ := e.exists_eq_cons
    obtain ⟨m, hm, rfl, hmem⟩ := exists_of_cons_mem_terms he
    cases i with
    | zero =>
      rw [Exponents.cons_apply_zero]
      exact hexp m hm
    | succ i =>
      rw [Exponents.cons_apply_succ]
      exact ih m hm (everyCoef_iff.mp hcoef m hm) hmem i

/-- The exponents in a canonical tree are those of its terms. -/
theorem exponentsAtMost_of_terms {p : Poly} {n : ℕ} (hp : p.isCanonical = true)
    (h : ∀ e ∈ p.terms, ∀ i, (e i).toNat ≤ n) : p.ExponentsAtMost n := by
  induction p using induct with
  | coeff c => trivial
  | sum ms ih =>
    obtain ⟨-, hinc, hcoef, -⟩ := isCanonical_sum.mp hp
    refine ⟨fun m hm => ?_, everyCoef_iff.mpr fun m hm => ?_⟩
    · obtain ⟨e, he⟩ := terms_nonempty (hcoef m hm).2 (hcoef m hm).1
      have hle := h _ (cons_mem_terms hinc hm he) 0
      rwa [Exponents.cons_apply_zero] at hle
    · refine ih m hm (hcoef m hm).2 fun e he i => ?_
      have hle := h _ (cons_mem_terms hinc hm he) (i + 1)
      rwa [Exponents.cons_apply_succ] at hle

theorem terms_normalize (p : Poly) : p.normalize.terms = p.terms := by
  rw [terms, terms, expand_normalize]

theorem depth_normalize_le (p : Poly) : p.normalize.depth ≤ p.depth := by
  refine depth_le_of_mem_below (isCanonical_normalize p) ?_
  rw [expand_normalize]
  exact expand_mem_below le_rfl

theorem exponentsAtMost_normalize {p : Poly} {n : ℕ} (h : p.ExponentsAtMost n) :
    p.normalize.ExponentsAtMost n := by
  refine exponentsAtMost_of_terms (isCanonical_normalize p) fun e he i => ?_
  rw [terms_normalize] at he
  exact toNat_le_of_mem_terms h he i

/-! ## Total degree -/

/-- The total degree as a natural number: that of zero is zero. -/
noncomputable def totalDegree (p : Poly) : ℕ := p.expand.degree

theorem totalDegree_le_iff {p : Poly} {n : ℕ} :
    p.totalDegree ≤ n ↔ ∀ e ∈ p.terms, e.degree ≤ n :=
  Finset.sup_le_iff

theorem totalDegree_coeff (c : Int64) : (coeff c).totalDegree = 0 := by
  refine Nat.le_zero.mp (totalDegree_le_iff.mpr fun e he => ?_)
  rw [eq_zero_of_mem_terms_coeff he, Exponents.degree_zero]

theorem totalDegree_sum_le {ms : List (Mono Poly)} {n : ℕ}
    (h : ∀ m ∈ ms, m.exp.toNat + m.coef.totalDegree ≤ n) : (sum ms).totalDegree ≤ n := by
  refine totalDegree_le_iff.mpr fun e he => ?_
  obtain ⟨d, e', rfl⟩ := e.exists_eq_cons
  obtain ⟨m, hm, rfl, hmem⟩ := exists_of_cons_mem_terms he
  have hdeg : e'.degree ≤ m.coef.totalDegree := Finset.le_sup hmem
  have hsum := h m hm
  rw [Exponents.degree_cons]
  omega

end Poly

end PolyCalc
