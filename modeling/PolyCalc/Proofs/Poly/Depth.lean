import PolyCalc.Proofs.Poly.Substitution

set_option autoImplicit false

/-! # No operation goes deeper

The result of an operation on polynomials in the first `d` variables is one in these variables, and
in canonical form it is no deeper than they are many. For substitution only the polynomials that
are put in count, not the one they are put into, and evaluation leaves one variable less. -/

namespace PolyCalc

namespace Expansion

variable {σ : ℕ → Expansion} {d : ℕ}

/-! ## Expansions in few variables -/

theorem const_mem_below (c : Int64) : const c ∈ below d :=
  Poly.expand_mem_below (p := .coeff c) (Nat.zero_le d)

/-- Only the variables that are put in are left. -/
theorem subst_mem_below (h : ∀ i, σ i ∈ below d) (a : Expansion) : subst σ a ∈ below d := by
  rw [subst_eq_sum]
  refine (below d).sum_mem fun e _ => ?_
  have hpowers : powers σ e ∈ below d := (below d).prod_mem fun i _ => (below d).pow_mem (h i) _
  exact (below d).mul_mem (const_mem_below _) hpowers

end Expansion

namespace Poly

/-! ## Evaluation -/

theorem sum_evalMono (x : Int64) (m : Mono Poly) :
    ((evalMono x m).map Mono.expand).sum =
      m.coef.expand * Expansion.const (powInt64 x m.exp) := by
  obtain ⟨p, e⟩ := m
  cases p with
  | coeff c =>
    rw [evalMono, List.map_singleton, List.sum_singleton, Mono.expand_constant, expand_coeff,
      map_mul]
  | sum ns =>
    have hmul : ∀ n ∈ ns, (mul n.coef (.coeff (powInt64 x e))).expand =
        n.coef.expand * Expansion.const (powInt64 x e) := fun n _ => expand_mul _ _
    exact sum_map_coef (f := (mul · (.coeff (powInt64 x e)))) hmul

theorem expand_evalFirst_sum (x : Int64) (ms : List (Mono Poly)) :
    ((sum ms).evalFirst x).expand =
      (ms.map fun m => m.coef.expand * Expansion.const (powInt64 x m.exp)).sum := by
  rw [evalFirst, expand_ofCanonicalMonos]
  induction ms with
  | nil => rw [List.flatMap_nil, List.map_nil, List.map_nil]
  | cons m ms ih =>
    rw [List.flatMap_cons, List.map_append, List.sum_append, sum_evalMono, ih, List.map_cons,
      List.sum_cons]

/-- A value has one variable less. -/
theorem depth_evalFirst_le {p : Poly} {d : ℕ} (h : p.depth ≤ d + 1) (x : Int64) :
    (p.evalFirst x).depth ≤ d := by
  refine depth_le_of_mem_below (isCanonical_evalFirst x p) ?_
  cases p with
  | coeff c => exact Expansion.const_mem_below c
  | sum ms =>
    -- What is left of a monomial is its coefficient times a number.
    rw [expand_evalFirst_sum]
    refine (Expansion.below d).list_sum_mem (List.forall_mem_map.mpr fun m hm => ?_)
    have hcoef := expand_mem_below (depth_sum_le_iff.mp h m hm)
    exact (Expansion.below d).mul_mem hcoef (Expansion.const_mem_below _)

/-! ## Polynomials that fit -/

/-- The polynomial is canonical and at most `d` deep. -/
structure Fits (d : ℕ) (p : Poly) : Prop where
  isCanonical : p.isCanonical = true
  depth_le : p.depth ≤ d

namespace Fits

variable {d : ℕ} {p q : Poly}

theorem of_expand (hp : p.isCanonical = true) (h : p.expand ∈ Expansion.below d) : p.Fits d :=
  ⟨hp, depth_le_of_mem_below hp h⟩

theorem expand_mem (h : p.Fits d) : p.expand ∈ Expansion.below d :=
  expand_mem_below h.depth_le

theorem zero : Poly.zero.Fits d := ⟨rfl, Nat.zero_le d⟩

theorem add (hp : p.Fits d) (hq : q.Fits d) : (p.add q).Fits d := by
  refine of_expand (isCanonical_add hp.isCanonical hq.isCanonical) ?_
  rw [expand_add]
  exact (Expansion.below d).add_mem hp.expand_mem hq.expand_mem

theorem neg (hp : p.Fits d) : p.neg.Fits d := by
  refine of_expand (isCanonical_neg hp.isCanonical) ?_
  rw [expand_neg]
  exact (Expansion.below d).neg_mem hp.expand_mem

theorem sub (hp : p.Fits d) (hq : q.Fits d) : (p.sub q).Fits d :=
  hp.add hq.neg

theorem mul (hp : p.Fits d) (hq : q.Fits d) : (p.mul q).Fits d := by
  refine of_expand (isCanonical_mul p q) ?_
  rw [expand_mul]
  exact (Expansion.below d).mul_mem hp.expand_mem hq.expand_mem

/-- The variables of the result are those of the replacements. -/
theorem compose {qs : List Poly} (p : Poly) (hqs : ∀ q ∈ qs, q.Fits d) : (p.compose qs).Fits d := by
  refine of_expand (isCanonical_compose p qs) ?_
  rw [expand_compose]
  refine Expansion.subst_mem_below (fun i => ?_) p.expand
  exact replacement_induction zero.expand_mem (fun q hq => (hqs q hq).expand_mem) i

theorem evalFirst_succ (hp : p.Fits (d + 1)) (x : Int64) : (p.evalFirst x).Fits d :=
  ⟨isCanonical_evalFirst x p, depth_evalFirst_le hp.depth_le x⟩

theorem evalFirst (hp : p.Fits d) (x : Int64) : (p.evalFirst x).Fits d :=
  evalFirst_succ ⟨hp.isCanonical, Nat.le_succ_of_le hp.depth_le⟩ x

end Fits

end Poly

end PolyCalc
