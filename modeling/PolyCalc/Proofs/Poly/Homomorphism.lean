import PolyCalc.Proofs.Poly.Evaluation

set_option autoImplicit false

/-! # Sums and products under substitution

Whatever puts polynomials for variables takes sums to sums, and it takes products to products where
the product has no exponents that overflow. For that it is enough that all exponents in the factors
are below `2³¹`, since the product adds them in pairs. Substitution and evaluation have both laws
for the same reason, so they are proved of what the two have in common (`Substitutes`). -/

namespace PolyCalc

open Wrapping

namespace Poly

/-! ## What puts polynomials for variables -/

/-- The function puts `σ₀, σ₁, …` for the variables, and its values are canonical. -/
structure Substitutes (f : Poly → Poly) (σ : ℕ → Expansion) : Prop where
  isCanonical : ∀ p, (f p).isCanonical = true
  expand : ∀ p, (f p).expand = Expansion.subst σ p.expand

theorem substitutes_compose (qs : List Poly) : Substitutes (·.compose qs) (replacement qs) where
  isCanonical p := isCanonical_compose p qs
  expand p := expand_compose p qs

theorem substitutes_evalFirst (x : Int64) :
    Substitutes (evalFirst x) (Expansion.evaluation x) where
  isCanonical := isCanonical_evalFirst x
  expand := expand_evalFirst x

namespace Substitutes

variable {f : Poly → Poly} {σ : ℕ → Expansion}

theorem map_add (hf : Substitutes f σ) (p q : Poly) : f (p.add q) = (f p).add (f q) := by
  have hadd : ((f p).add (f q)).isCanonical = true :=
    isCanonical_add (hf.isCanonical p) (hf.isCanonical q)
  refine eq_of_expand_eq (hf.isCanonical _) hadd ?_
  rw [hf.expand, expand_add, AddMonoidHom.map_add, expand_add, hf.expand, hf.expand]

theorem map_mul (hf : Substitutes f σ) {p q : Poly} (hp : p.ExponentsAtMost 2147483647)
    (hq : q.ExponentsAtMost 2147483647) : f (p.mul q) = (f p).mul (f q) := by
  have hfits : ∀ d ∈ p.terms, ∀ e ∈ q.terms, ∀ i, (d i).toNat + (e i).toNat < 2 ^ 32 := by
    intro d hd e he i
    have hdi := toNat_le_of_mem_terms hp hd i
    have hei := toNat_le_of_mem_terms hq he i
    omega
  refine eq_of_expand_eq (hf.isCanonical _) (isCanonical_mul _ _) ?_
  rw [hf.expand, expand_mul, Expansion.subst_mul hfits, expand_mul, hf.expand, hf.expand]

end Substitutes

/-! ## Substitution and evaluation -/

/-- Substitution and evaluation are homomorphisms in the polynomial they are applied to: for sums
    without condition, and for products of polynomials whose exponents are all below `2³¹`. These
    are equalities of trees, for operands of any form and replacements of any number. -/
theorem compose_evalFirst_homomorphism (p r : Poly) (qs : List Poly) (x : Int64) :
    (p.add r).compose qs = (p.compose qs).add (r.compose qs) ∧
      (p.add r).evalFirst x = (p.evalFirst x).add (r.evalFirst x) ∧
      (p.ExponentsAtMost 2147483647 → r.ExponentsAtMost 2147483647 →
        (p.mul r).compose qs = (p.compose qs).mul (r.compose qs) ∧
          (p.mul r).evalFirst x = (p.evalFirst x).mul (r.evalFirst x)) := by
  have hcompose := substitutes_compose qs
  have heval := substitutes_evalFirst x
  refine ⟨hcompose.map_add p r, heval.map_add p r, ?_⟩
  intro hp hr
  exact ⟨hcompose.map_mul hp hr, heval.map_mul hp hr⟩

/-- The polynomial `x₁ + 2³² · x₀ ^ (2³¹ - 1)`: its exponents are as great as they may be, and its
    square has only two terms. -/
def steepest : Poly := .sum [⟨.sum [⟨.coeff 1, 1⟩], 0⟩, ⟨.coeff 4294967296, 2147483647⟩]

theorem compose_evalFirst_homomorphism_steepest :
    steepest.ExponentsAtMost 2147483647 ∧
      (steepest.mul steepest).compose [var 1] =
        (steepest.compose [var 1]).mul (steepest.compose [var 1]) ∧
      (steepest.mul steepest).evalFirst 3 =
        (steepest.evalFirst 3).mul (steepest.evalFirst 3) := by
  have hexp : steepest.ExponentsAtMost 2147483647 := by
    simp [steepest, ExponentsAtMost, EverySum, EveryCoef]
  exact ⟨hexp, (compose_evalFirst_homomorphism steepest steepest [var 1] 3).2.2 hexp hexp⟩

/-- With greater exponents products are not kept: the square of `x₀ ^ 2³¹` is one, but at two its
    factors are zero. -/
example : ((sum [⟨.coeff 1, 2147483648⟩]).mul (.sum [⟨.coeff 1, 2147483648⟩])).evalFirst 2 =
      .coeff 1 ∧
    ((sum [⟨.coeff 1, 2147483648⟩]).evalFirst 2) = .coeff 0 := by decide +kernel

end Poly

end PolyCalc
