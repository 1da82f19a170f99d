import PolyCalc.Proofs.Poly.Evaluation

set_option autoImplicit false

/-! # What operands contribute

A power, a value and a substitution depend on their operands only through the coefficients: any
tree gives the same result as its canonical form (`normalize_pow_evalFirst_compose`). On the way the
two may have nothing in common. A sum that is a number in canonical form has its power taken by
squaring trees, and the number by squaring numbers.

Of the list that is put for the variables, only the entries for variables of the polynomial
contribute, and a missing entry contributes what zero does (`compose_of_padded_eq`). That rule has a
branch of its own in the substitution, for the end of the list, which takes no powers; it agrees
with the powers of zero because the zeroth one is one. -/

namespace PolyCalc

open Wrapping

/-! ## Zero for every variable -/

/-- Of the powers of zero only the zeroth is left, and so of all terms only the constant one. -/
theorem Expansion.powers_of_zero {e : Exponents} (h : e ≠ 0) : powers (fun _ => 0) e = 0 := by
  obtain ⟨i, hi⟩ := Finsupp.ne_iff.mp h
  rw [Finsupp.zero_apply] at hi
  have hpos : (e i).toNat ≠ 0 := by
    intro h0
    exact hi (UInt32.toNat_inj.mp h0)
  exact Finset.prod_eq_zero (Finsupp.mem_support_iff.mpr hi) (zero_pow hpos)

theorem Expansion.subst_zero (a : Expansion) : subst (fun _ => 0) a = const (a.coeff 0) := by
  induction a using AddMonoidAlgebra.induction_linear with
  | zero => simp
  | add a b iha ihb => simp [iha, ihb]
  | single e c =>
    rw [subst_single]
    by_cases he : e = 0
    · simp [he, powers_zero]
    · simp [powers_of_zero he, he]

namespace Poly

/-! ## Canonical form of the operands -/

/-- A tree has the canonical form `q` if it has the coefficients of `q`. -/
theorem normalize_eq_of_expand_eq {p q : Poly} (hq : q.isCanonical = true)
    (h : p.expand = q.expand) : p.normalize = q := by
  rw [normalize_eq_normalize_iff.mpr h, normalize_eq_self hq]

theorem replacement_normalize (qs : List Poly) :
    replacement (qs.map normalize) = replacement qs := by
  funext i
  have hzero : zero.normalize = zero := rfl
  rw [replacement_map normalize hzero, expand_normalize]
  rfl

/-- Powers, values and substitutions do not depend on how their operands are written: canonical
    form may be taken before or after. -/
theorem normalize_pow_evalFirst_compose (p : Poly) (qs : List Poly) (n : UInt32) (x : Int64) :
    (p.pow n).normalize = p.normalize.pow n ∧
      (p.evalFirst x).normalize = p.normalize.evalFirst x ∧
      (p.compose qs).normalize = p.normalize.compose (qs.map normalize) := by
  refine ⟨?_, ?_, ?_⟩
  · apply normalize_eq_of_expand_eq (isCanonical_pow _ n)
    rw [expand_pow, expand_pow, expand_normalize]
  · apply normalize_eq_of_expand_eq (isCanonical_evalFirst x _)
    rw [expand_evalFirst, expand_evalFirst, expand_normalize]
  · apply normalize_eq_of_expand_eq (isCanonical_compose _ _)
    rw [expand_compose, expand_compose, expand_normalize, replacement_normalize]

/-- The sum of `2⁶³ · x₀` with itself is no sum in canonical form. Its cube as a tree is the product
    of two sums, and that of the number zero is a power of numbers. -/
example : (sum [⟨.coeff (-9223372036854775808), 1⟩, ⟨.coeff (-9223372036854775808), 1⟩]).pow 3 =
    (sum [⟨.coeff (-9223372036854775808), 1⟩, ⟨.coeff (-9223372036854775808), 1⟩]).normalize.pow 3
    := by decide +kernel

/-! ## Missing and surplus replacements -/

theorem compose_congr {p : Poly} {qs rs : List Poly}
    (h : ∀ i < p.depth, qs.getD i zero = rs.getD i zero) : p.compose qs = p.compose rs := by
  apply eq_of_expand_eq (isCanonical_compose p qs) (isCanonical_compose p rs)
  rw [expand_compose, expand_compose]
  apply Expansion.subst_congr (expand_mem_below le_rfl)
  intro i hi
  rw [replacement, replacement, h i hi]

theorem getD_append_replicate_zero (qs : List Poly) (k i : ℕ) :
    (qs ++ List.replicate k zero).getD i zero = qs.getD i zero := by
  by_cases hi : i < qs.length
  · rw [List.getD_append _ _ _ _ hi]
  · have hge : qs.length ≤ i := Nat.le_of_not_lt hi
    rw [List.getD_append_right _ _ _ _ hge, List.getD_eq_getElem?_getD,
      List.getElem?_getD_replicate_default_eq, List.getD_eq_default _ _ hge]

theorem compose_nil (p : Poly) : p.compose [] = .coeff (p.coefAt 0) := by
  apply eq_of_expand_eq (isCanonical_compose p []) rfl
  rw [expand_compose, replacement_nil, Expansion.subst_zero, coeff_expand_eq_coefAt, expand_coeff]

/-- Missing replacements are zero and surplus ones are ignored: two lists that agree at the
    variables of the polynomial, once they are padded with zeros, give the same tree. So zeros at
    the end change nothing, and without any replacement the constant coefficient is left. -/
theorem compose_of_padded_eq (p : Poly) (qs : List Poly) :
    (∀ rs : List Poly, (∀ i < p.depth, qs.getD i zero = rs.getD i zero) →
        p.compose qs = p.compose rs) ∧
      (∀ k, p.compose (qs ++ List.replicate k zero) = p.compose qs) ∧
      p.compose [] = .coeff (p.coefAt 0) := by
  refine ⟨?_, ?_, compose_nil p⟩
  · intro rs h
    exact compose_congr h
  · intro k
    apply compose_congr
    intro i _
    exact getD_append_replicate_zero qs k i

/-- The polynomial `(2 + x₂) + 3 · x₀ + 5 · x₁ · x₀ ^ (2³² - 1)`. Where the list ends early, its
    first monomial keeps what the later levels have without variables. -/
def uneven : Poly :=
  .sum [⟨.sum [⟨.sum [⟨.coeff 2, 0⟩, ⟨.coeff 1, 1⟩], 0⟩], 0⟩, ⟨.coeff 3, 1⟩,
    ⟨.sum [⟨.coeff 5, 1⟩], 4294967295⟩]

theorem compose_of_padded_eq_uneven :
    (∀ i < uneven.depth, [var 1].getD i zero = [var 1, zero, zero, var 0].getD i zero) ∧
      uneven.compose [var 1] = uneven.compose [var 1, zero, zero, var 0] ∧
      uneven.compose [] = .coeff 2 := by
  have hagree : ∀ i < uneven.depth,
      [var 1].getD i zero = [var 1, zero, zero, var 0].getD i zero := by decide
  exact ⟨hagree, (compose_of_padded_eq uneven [var 1]).1 _ hagree,
    (compose_of_padded_eq uneven []).2.2⟩

end Poly

end PolyCalc
