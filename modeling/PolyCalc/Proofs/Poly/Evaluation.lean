import PolyCalc.Proofs.Poly.Depth

set_option autoImplicit false

/-! # Evaluation is a substitution

To evaluate a polynomial at `x₀ = x` is to put the number `x` for its first variable and, for every
other variable, the one before it: in expansions (`expand_evalFirst`), and so in trees, where the
variables up to the last one of the polynomial have to be in the list (`evalFirst_eq_compose`).
Evaluation gathers the monomials of all inner sums into one list, and substitution multiplies them
out one by one; that the two agree is seen only in what they stand for. -/

namespace PolyCalc

open Wrapping

/-- What evaluation puts for the variables: a number for the first one, and for every other one the
    variable before it. -/
noncomputable def Expansion.evaluation (x : Int64) : ℕ → Expansion
  | 0 => const x
  | i + 1 => var i

namespace Poly

/-- To put something for the variables that evaluation leaves is to put it for the variables after
    `x₀`, and the number for `x₀`. -/
theorem subst_expand_evalFirst {σ : ℕ → Expansion} {x : Int64} (hx : σ 0 = Expansion.const x)
    (p : Poly) :
    Expansion.subst (fun i => σ (i + 1)) (p.evalFirst x).expand =
      Expansion.subst σ p.expand := by
  cases p with
  | coeff c => rw [evalFirst, expand_coeff, Expansion.subst_const, Expansion.subst_const]
  | sum ms =>
    rw [expand_evalFirst_sum, map_list_sum, subst_expand_sum, List.map_map]
    apply congrArg List.sum
    apply List.map_congr_left
    intro m _
    rw [Function.comp_apply, mul_comm, Expansion.subst_const_mul, powInt64_eq_pow, map_pow, hx]

theorem expand_evalFirst (x : Int64) (p : Poly) :
    (p.evalFirst x).expand = Expansion.subst (Expansion.evaluation x) p.expand := by
  have hfirst : Expansion.evaluation x 0 = Expansion.const x := rfl
  have hrest : (fun i => Expansion.evaluation x (i + 1)) = Expansion.var := rfl
  rw [← subst_expand_evalFirst hfirst, hrest, Expansion.subst_var]

/-- Evaluation at `x₀ = x` puts `x` for `x₀`, `x₀` for `x₁`, `x₁` for `x₂` and so on, as far as
    the polynomial has variables. -/
theorem evalFirst_eq_compose {p : Poly} {n : ℕ} (h : p.depth ≤ n + 1) (x : Int64) :
    p.evalFirst x = p.compose (.coeff x :: (List.range n).map var) := by
  refine eq_of_expand_eq (isCanonical_evalFirst x p) (isCanonical_compose p _) ?_
  have hvars : ∀ i < n + 1, Expansion.evaluation x i =
      replacement (.coeff x :: (List.range n).map var) i := by
    intro i hi
    cases i with
    | zero => rfl
    | succ i => exact (replacement_vars (Nat.lt_of_succ_lt_succ hi)).symm
  rw [expand_evalFirst, expand_compose, Expansion.subst_congr (expand_mem_below h) hvars]

/-- The polynomial `x₁ + (5 - x₁) · x₀ ^ (2³² - 1)`: at one the inner sums cancel, and at two the
    second one is lost to overflow. -/
def crossing : Poly :=
  .sum [⟨.sum [⟨.coeff 1, 1⟩], 0⟩, ⟨.sum [⟨.coeff 5, 0⟩, ⟨.coeff (-1), 1⟩], 4294967295⟩]

theorem evalFirst_eq_compose_crossing :
    crossing.depth ≤ 1 + 1 ∧ crossing.evalFirst 1 = .coeff 5 ∧ crossing.evalFirst 2 = var 0 ∧
      crossing.evalFirst 1 = crossing.compose [.coeff 1, var 0] ∧
      crossing.evalFirst 2 = crossing.compose [.coeff 2, var 0] := by
  have hdepth : crossing.depth ≤ 1 + 1 := by decide
  exact ⟨hdepth, by decide +kernel, by decide +kernel, evalFirst_eq_compose hdepth 1,
    evalFirst_eq_compose hdepth 2⟩

end Poly

end PolyCalc
