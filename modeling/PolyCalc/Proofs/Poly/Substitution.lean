import PolyCalc.Proofs.Poly.Powers
import PolyCalc.Proofs.Poly.Terms

set_option autoImplicit false

/-! # Substitution

Multiplied out, substitution replaces every term `c · x₀^e₀ · x₁^e₁ · …` by `c · q₀^e₀ · q₁^e₁ · …`
(`expand_compose`), with zero for what is missing. Variables that are put for themselves change
nothing, whatever the exponents are (`Expansion.subst_var`).

This map of expansions is additive, but it respects products only where no exponent wraps
(`Expansion.subst_mul`): `x₀ ^ (2³² - 1) · x₀` is one, whatever is put for `x₀`. A bound on the
degrees that are multiplied out first is therefore all that substitution in two steps needs to
agree with that in one. -/

namespace PolyCalc

open Wrapping

namespace Expansion

variable {σ τ : ℕ → Expansion}

/-! ## Products of powers -/

/-- The product of the powers of `σ₀, σ₁, …` with the given exponents. -/
noncomputable def powers (σ : ℕ → Expansion) (e : Exponents) : Expansion :=
  e.prod fun i d => σ i ^ d.toNat

theorem powers_zero : powers σ 0 = 1 := Finsupp.prod_zero_index

theorem powers_cons (d : UInt32) (e : Exponents) :
    powers σ (Exponents.cons d e) = σ 0 ^ d.toNat * powers (fun i => σ (i + 1)) e := by
  rw [powers, Exponents.cons,
    Finsupp.prod_add_index_of_disjoint (Exponents.disjoint_single_shift d e),
    Finsupp.prod_single_index (by simp)]
  congr 1
  exact Finsupp.prod_mapDomain_index_inj Nat.succ_injective

/-- Without overflow, powers multiply as their exponents add up. -/
theorem powers_add {d e : Exponents} (h : ∀ i, (d i).toNat + (e i).toNat < 2 ^ 32) :
    powers σ (d + e) = powers σ d * powers σ e := by
  have hprod (f : Exponents) (hf : f.support ⊆ d.support ∪ e.support) :
      powers σ f = ∏ i ∈ d.support ∪ e.support, σ i ^ (f i).toNat :=
    Finsupp.prod_of_support_subset f hf _ (by simp)
  rw [hprod _ Finsupp.support_add, hprod d Finset.subset_union_left,
    hprod e Finset.subset_union_right, ← Finset.prod_mul_distrib]
  refine Finset.prod_congr rfl fun i _ => ?_
  rw [Finsupp.add_apply, UInt32.toNat_add, Nat.mod_eq_of_lt (h i), pow_add]

/-! ## Substitution in expansions -/

/-- Puts `σ₀, σ₁, …` for the variables. -/
noncomputable def subst (σ : ℕ → Expansion) : Expansion →+ Expansion :=
  AddMonoidAlgebra.liftNC const fun e => powers σ e.toAdd

theorem subst_single (e : Exponents) (c : Int64) :
    subst σ (AddMonoidAlgebra.single e c) = const c * powers σ e :=
  AddMonoidAlgebra.liftNC_single _ _ _ _

theorem subst_const (c : Int64) : subst σ (const c) = const c := by
  show subst σ (AddMonoidAlgebra.single 0 c) = _
  rw [subst_single, powers_zero, mul_one]

theorem subst_one : subst σ 1 = 1 := by rw [← map_one const, subst_const]

theorem subst_eq_sum (a : Expansion) :
    subst σ a = a.coeff.sum fun e c => const c * powers σ e := by
  conv_lhs => rw [← AddMonoidAlgebra.sum_coeff_single a]
  simp only [map_finsuppSum, subst_single]

theorem subst_power_mul_shift (d : UInt32) (a : Expansion) :
    subst σ (power d * shift a) = σ 0 ^ d.toNat * subst (fun i => σ (i + 1)) a := by
  induction a using AddMonoidAlgebra.induction_linear with
  | zero => simp
  | add a b iha ihb => rw [map_add, mul_add, map_add, iha, ihb, map_add, mul_add]
  | single e c =>
    rw [shift_single, power, AddMonoidAlgebra.single_mul_single, one_mul, ← Exponents.cons,
      subst_single, subst_single, powers_cons, mul_left_comm]

/-- Only what is put for variables that occur matters. -/
theorem subst_congr {a : Expansion} {n : ℕ} (ha : a ∈ below n) (h : ∀ i < n, σ i = τ i) :
    subst σ a = subst τ a := by
  rw [subst_eq_sum, subst_eq_sum]
  refine Finset.sum_congr rfl fun e he => ?_
  have hpowers : powers σ e = powers τ e := by
    refine Finset.prod_congr rfl fun i hi => ?_
    have hi' : i < n := by
      by_contra hge
      exact Finsupp.mem_support_iff.mp hi (ha e he i (Nat.le_of_not_lt hge))
    show σ i ^ _ = τ i ^ _
    rw [h i hi']
  show const _ * powers σ e = const _ * powers τ e
  rw [hpowers]

/-! ## Variables -/

/-- The variable `x_i`. -/
noncomputable def var (i : ℕ) : Expansion := AddMonoidAlgebra.single (Finsupp.single i 1) 1

theorem shift_var (i : ℕ) : shift (var i) = var (i + 1) := by
  have hexp : Exponents.shift (Finsupp.single i 1) = Finsupp.single (i + 1) 1 :=
    Finsupp.mapDomain_single
  rw [var, shift_single, hexp, var]

theorem var_pow (i n : ℕ) :
    var i ^ n = AddMonoidAlgebra.single (Finsupp.single i (UInt32.ofNat n)) 1 := by
  induction n with
  | zero =>
    have hzero : UInt32.ofNat 0 = 0 := rfl
    rw [pow_zero, hzero, Finsupp.single_zero]
    rfl
  | succ n ih =>
    rw [pow_succ, ih, var, AddMonoidAlgebra.single_mul_single, ← Finsupp.single_add, one_mul,
      UInt32.ofNat_add]
    rfl

/-- The product of the powers of the variables is a monomial: one exponent belongs to each of them,
    so none is added to another and wraps. -/
theorem powers_var (e : Exponents) : powers var e = AddMonoidAlgebra.single e 1 := by
  simp only [powers, var_pow, UInt32.ofNat_toNat]
  rw [Finsupp.prod, AddMonoidAlgebra.prod_single, Finset.prod_const_one]
  congr 1
  exact e.sum_single

/-- Variables that are put for themselves change nothing. -/
theorem subst_var (a : Expansion) : subst var a = a := by
  have hterm (e : Exponents) (c : Int64) : const c * powers var e = AddMonoidAlgebra.single e c := by
    show AddMonoidAlgebra.single 0 c * _ = _
    rw [powers_var, AddMonoidAlgebra.single_mul_single, zero_add, mul_one]
  rw [subst_eq_sum]
  simp only [hterm]
  exact a.sum_coeff_single

/-! ## Substitution and products -/

theorem degree_pow_le (a : Expansion) (n : ℕ) : (a ^ n).degree ≤ n * a.degree :=
  AddMonoidAlgebra.sup_support_pow_le Exponents.degree_zero.le Exponents.degree_add_le n a

theorem degree_prod_le (s : Finset ℕ) (f : ℕ → Expansion) :
    (∏ i ∈ s, f i).degree ≤ ∑ i ∈ s, (f i).degree :=
  AddMonoidAlgebra.sup_support_coeff_finsetProd_le Exponents.degree_zero.le
    Exponents.degree_add_le s f

/-- Substitution respects products in which no two exponents of one variable overflow. -/
theorem subst_mul {a b : Expansion} (h : ∀ d ∈ a.coeff.support, ∀ e ∈ b.coeff.support, ∀ i,
    (d i).toNat + (e i).toNat < 2 ^ 32) : subst τ (a * b) = subst τ a * subst τ b := by
  rw [subst_eq_sum a, subst_eq_sum b, AddMonoidAlgebra.mul_def]
  simp only [map_finsuppSum, subst_single, Finsupp.sum_mul]
  simp only [Finsupp.mul_sum]
  refine Finset.sum_congr rfl fun d hd => Finset.sum_congr rfl fun e he => ?_
  show const (_ * _) * powers τ (d + e) = const _ * powers τ d * (const _ * powers τ e)
  rw [powers_add (h d hd e he), map_mul, mul_mul_mul_comm]

theorem subst_mul_of_degree {a b : Expansion} (h : a.degree + b.degree < 2 ^ 32) :
    subst τ (a * b) = subst τ a * subst τ b := by
  refine subst_mul fun d hd e he i => ?_
  have hd' : d.degree ≤ a.degree := Finset.le_sup hd
  have he' : e.degree ≤ b.degree := Finset.le_sup he
  have hdi := d.toNat_le_degree i
  have hei := e.toNat_le_degree i
  omega

theorem subst_const_mul (c : Int64) (a : Expansion) :
    subst τ (const c * a) = const c * subst τ a := by
  have hconst : ∀ d ∈ (const c).coeff.support, d = 0 := by
    intro d hd
    exact Finset.mem_singleton.mp (Finsupp.support_single_subset hd)
  rw [subst_mul, subst_const]
  intro d hd e _ i
  rw [hconst d hd, Finsupp.zero_apply, UInt32.toNat_zero, zero_add]
  exact (e i).toNat_lt

theorem subst_pow {a : Expansion} {n : ℕ} (h : n * a.degree < 2 ^ 32) :
    subst τ (a ^ n) = subst τ a ^ n := by
  induction n with
  | zero => rw [pow_zero, pow_zero, subst_one]
  | succ n ih =>
    have hdeg := degree_pow_le a n
    rw [Nat.succ_mul] at h
    rw [pow_succ, pow_succ, subst_mul_of_degree (by omega), ih (by omega)]

theorem subst_prod {s : Finset ℕ} {f : ℕ → Expansion} (h : ∑ i ∈ s, (f i).degree < 2 ^ 32) :
    subst τ (∏ i ∈ s, f i) = ∏ i ∈ s, subst τ (f i) := by
  induction s using Finset.cons_induction with
  | empty => rw [Finset.prod_empty, Finset.prod_empty, subst_one]
  | cons i s hi ih =>
    have hdeg := degree_prod_le s f
    rw [Finset.sum_cons] at h
    rw [Finset.prod_cons, Finset.prod_cons, subst_mul_of_degree (by omega), ih (by omega)]

theorem subst_powers {e : Exponents} {b : ℕ} (hσ : ∀ i, (σ i).degree ≤ b)
    (h : e.degree * b < 2 ^ 32) :
    subst τ (powers σ e) = powers (fun i => subst τ (σ i)) e := by
  have hpow (i : ℕ) : (e i).toNat * (σ i).degree ≤ (e i).toNat * b := Nat.mul_le_mul_left _ (hσ i)
  have hsum : ∑ i ∈ e.support, (σ i ^ (e i).toNat).degree ≤ e.degree * b := by
    rw [Exponents.degree, Finsupp.sum, Finset.sum_mul]
    exact Finset.sum_le_sum fun i _ => (degree_pow_le _ _).trans (hpow i)
  rw [powers, Finsupp.prod, subst_prod (by omega), powers, Finsupp.prod]
  refine Finset.prod_congr rfl fun i _ => subst_pow ?_
  have hi := Nat.mul_le_mul_right b (e.toNat_le_degree i)
  have := hpow i
  omega

/-- Two substitutions in a row are one, if the first does not let exponents overflow. -/
theorem subst_subst {a : Expansion} {b : ℕ} (hσ : ∀ i, (σ i).degree ≤ b)
    (h : a.degree * b < 2 ^ 32) :
    subst τ (subst σ a) = subst (fun i => subst τ (σ i)) a := by
  rw [subst_eq_sum a, subst_eq_sum a, map_finsuppSum]
  refine Finset.sum_congr rfl fun e he => ?_
  have hdeg : e.degree * b ≤ a.degree * b := Nat.mul_le_mul_right b (Finset.le_sup he)
  show subst τ (const _ * powers σ e) = const _ * powers _ e
  rw [subst_const_mul, subst_powers hσ (by omega)]

end Expansion

namespace Poly

/-! ## Substitution in trees -/

theorem expand_foldl_add (ps : List Poly) (acc : Poly) :
    (ps.foldl add acc).expand = acc.expand + (ps.map expand).sum := by
  induction ps generalizing acc with
  | nil => rw [List.foldl_nil, List.map_nil, List.sum_nil, add_zero]
  | cons p ps ih => rw [List.foldl_cons, ih, expand_add, List.map_cons, List.sum_cons, add_assoc]

theorem expand_zero : zero.expand = 0 := map_zero Expansion.const

/-- What is put for the variables: past the end of the list it is zero. -/
noncomputable def replacement (qs : List Poly) (i : ℕ) : Expansion := (qs.getD i zero).expand

theorem replacement_nil : replacement [] = fun _ => 0 := funext fun _ => expand_zero

theorem replacement_cons_zero (q : Poly) (qs : List Poly) : replacement (q :: qs) 0 = q.expand := rfl

theorem replacement_cons_succ (q : Poly) (qs : List Poly) :
    (fun i => replacement (q :: qs) (i + 1)) = replacement qs := rfl

/-- What holds of zero and of every polynomial in the list holds of what is put in. -/
theorem replacement_induction {P : Expansion → Prop} {qs : List Poly} (hzero : P zero.expand)
    (h : ∀ q ∈ qs, P q.expand) (i : ℕ) : P (replacement qs i) := by
  by_cases hi : i < qs.length
  · rw [replacement, List.getD_eq_getElem qs zero hi]
    exact h _ (List.getElem_mem hi)
  · rw [replacement, List.getD_eq_default qs zero (Nat.le_of_not_lt hi)]
    exact hzero

/-- What is put in from a list of values of `f`, where zero is one of them. -/
theorem replacement_map {α : Type} (f : α → Poly) {a : α} (hf : f a = zero) (as : List α) (i : ℕ) :
    replacement (as.map f) i = (f (as.getD i a)).expand := by
  rw [replacement, ← hf, List.getD_map]

/-- Substitution in a sum, level by level: a power of what is put for `x₀`, and the coefficient with
    the rest put for its variables. -/
theorem subst_expand_sum (σ : ℕ → Expansion) (ms : List (Mono Poly)) :
    Expansion.subst σ (sum ms).expand =
      (ms.map fun m =>
        σ 0 ^ m.exp.toNat * Expansion.subst (fun i => σ (i + 1)) m.coef.expand).sum := by
  rw [expand_sum, map_list_sum, List.map_map]
  apply congrArg List.sum
  apply List.map_congr_left
  intro m _
  rw [Function.comp_apply, Mono.expand, Expansion.subst_power_mul_shift]

theorem expand_compose (p : Poly) (qs : List Poly) :
    (p.compose qs).expand = Expansion.subst (replacement qs) p.expand := by
  induction p using induct generalizing qs with
  | coeff c => rw [compose, expand_coeff, Expansion.subst_const]
  | sum ms ih =>
    rw [compose_sum, expand_foldl_add, expand_zero, zero_add, subst_expand_sum, List.map_map]
    apply congrArg List.sum
    apply List.map_congr_left
    intro m hm
    rw [Function.comp_apply]
    cases qs with
    | cons q rest =>
      rw [composeMono, expand_mul, expand_pow, ih m hm rest, replacement_cons_zero,
        replacement_cons_succ]
    -- Of the powers of zero only the zeroth is left.
    | nil =>
      have hm' := ih m hm []
      rw [replacement_nil] at hm' ⊢
      rw [composeMono]
      by_cases he : m.exp = 0
      · rw [if_pos he, hm', he, UInt32.toNat_zero, pow_zero, one_mul]
      · have hpos : m.exp.toNat ≠ 0 := fun h => he (UInt32.toNat_inj.mp h)
        rw [if_neg he, expand_zero, zero_pow hpos, zero_mul]

/-! ## Variables for themselves -/

theorem expand_var (k : ℕ) : (var k).expand = Expansion.var k := by
  induction k with
  | zero =>
    rw [var, expand_sum, List.map_singleton, List.sum_singleton, Mono.expand_mk, expand_coeff,
      map_one, map_one, mul_one]
    rfl
  | succ k ih =>
    rw [var, expand_sum, List.map_singleton, List.sum_singleton, Mono.expand_mk,
      Expansion.power_zero, one_mul, ih, Expansion.shift_var]

theorem replacement_vars {n i : ℕ} (h : i < n) :
    replacement ((List.range n).map var) i = Expansion.var i := by
  have hlength : i < ((List.range n).map var).length := by simpa using h
  rw [replacement, List.getD_eq_getElem _ _ hlength, List.getElem_map, List.getElem_range,
    expand_var]

theorem compose_vars {p : Poly} (hp : p.isCanonical = true) {n : ℕ} (h : p.depth ≤ n) :
    p.compose ((List.range n).map var) = p := by
  refine eq_of_expand_eq (isCanonical_compose p _) hp ?_
  rw [expand_compose, Expansion.subst_congr (expand_mem_below h) fun _ => replacement_vars,
    Expansion.subst_var]

/-! ## Substitution in two steps -/

/-- The greatest total degree in a list, and zero for the empty list. -/
noncomputable def greatestDegree (qs : List Poly) : ℕ := (qs.map totalDegree).foldr max 0

theorem degree_replacement_le (qs : List Poly) (i : ℕ) :
    (replacement qs i).degree ≤ greatestDegree qs := by
  have hzero : zero.totalDegree ≤ greatestDegree qs :=
    (totalDegree_coeff 0).le.trans (Nat.zero_le _)
  have hmem : ∀ q ∈ qs, q.totalDegree ≤ greatestDegree qs :=
    fun q hq => List.le_max_of_le (List.mem_map_of_mem hq) le_rfl
  exact replacement_induction (P := (·.degree ≤ greatestDegree qs)) hzero hmem i

theorem compose_compose {p : Poly} {qs : List Poly} (rs : List Poly)
    (h : p.totalDegree * greatestDegree qs < 2 ^ 32) :
    (p.compose qs).compose rs = p.compose (qs.map (·.compose rs)) := by
  refine eq_of_expand_eq (isCanonical_compose _ _) (isCanonical_compose _ _) ?_
  have hmap : (fun i => Expansion.subst (replacement rs) (replacement qs i)) =
      replacement (qs.map (·.compose rs)) := by
    funext i
    have hzero : zero.compose rs = zero := rfl
    rw [replacement_map (compose · rs) hzero, replacement, ← expand_compose]
  rw [expand_compose, expand_compose, expand_compose,
    Expansion.subst_subst (degree_replacement_le qs) h, hmap]

/-- Substitution is an action of lists of polynomials: the variables themselves change nothing, and
    two substitutions in a row are one. For the second law the powers of the first substitution
    must not overflow; those of the second may. Lists may be too short or too long. -/
theorem compose_monoid_action {p : Poly} (hp : p.isCanonical = true) :
    (∀ n, p.depth ≤ n → p.compose ((List.range n).map var) = p) ∧
      ∀ qs rs : List Poly, p.totalDegree * greatestDegree qs < 2 ^ 32 →
        (p.compose qs).compose rs = p.compose (qs.map (·.compose rs)) :=
  ⟨fun _ => compose_vars hp, fun _ rs => compose_compose rs⟩

/-- The polynomial `x₀⁶⁵⁰⁰⁰ · x₁⁷`. -/
def steep : Poly := .sum [⟨.sum [⟨.coeff 1, 7⟩], 65000⟩]

/-- The polynomials `x₀⁶⁵⁵³⁵` and `x₀`: put into `steep` they do not overflow, and their values at
    `x₀²` do. -/
def steepValues : List Poly := [.sum [⟨.coeff 1, 65535⟩], .sum [⟨.coeff 1, 1⟩]]

theorem totalDegree_monomial_le (c : Int64) (e : UInt32) :
    (sum [⟨.coeff c, e⟩]).totalDegree ≤ e.toNat :=
  totalDegree_sum_le fun m hm => by rw [List.mem_singleton.mp hm, totalDegree_coeff, add_zero]

theorem totalDegree_steep_le : steep.totalDegree ≤ 65007 := by
  refine totalDegree_sum_le fun m hm => ?_
  have hcoef := totalDegree_monomial_le 1 7
  rw [List.mem_singleton.mp hm]
  exact Nat.add_le_add_left hcoef 65000

theorem greatestDegree_steepValues_le : greatestDegree steepValues ≤ 65535 :=
  max_le (totalDegree_monomial_le 1 65535)
    (max_le ((totalDegree_monomial_le 1 1).trans (by decide)) (Nat.zero_le _))

theorem compose_monoid_action_steep :
    steep.isCanonical = true ∧ steep.depth ≤ 2 ∧
      steep.compose ((List.range 2).map var) = steep ∧
      steep.totalDegree * greatestDegree steepValues < 2 ^ 32 ∧
      (steep.compose steepValues).compose [.sum [⟨.coeff 1, 2⟩]] =
        steep.compose (steepValues.map (·.compose [.sum [⟨.coeff 1, 2⟩]])) := by
  have hp : steep.isCanonical = true := by decide
  have hdepth : steep.depth ≤ 2 := by decide
  have hdeg : steep.totalDegree * greatestDegree steepValues < 2 ^ 32 :=
    lt_of_le_of_lt (Nat.mul_le_mul totalDegree_steep_le greatestDegree_steepValues_le) (by decide)
  exact ⟨hp, hdepth, (compose_monoid_action hp).1 2 hdepth, hdeg,
    (compose_monoid_action hp).2 _ _ hdeg⟩

end Poly

end PolyCalc
