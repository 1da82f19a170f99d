import PolyCalc.Proofs.Poly.NormalForm

set_option autoImplicit false

/-! # Powers

Squaring keeps one product as it is: that of the accumulator and of the power which is still to be
taken of the base. As trees both change their shape on the way, since products may lose terms by
overflow and become numbers; the invariant is stated of what they stand for, in any commutative
monoid that their multiplication maps to (`powBySquaring_eq_pow`). A power and a product of as many
factors have therefore the same expansion, and both are canonical: they are the same tree
(`Poly.pow_eq_repeated_product`). -/

namespace PolyCalc

open Wrapping

/-! ## Squaring -/

theorem powBySquaring_eq_pow {α M : Type} [CommMonoid M] {mul : α → α → α} {φ : α → M}
    (hmul : ∀ a b, φ (mul a b) = φ a * φ b) {width n : ℕ} (hn : n < 2 ^ width) (acc base : α) :
    φ (powBySquaring mul width n acc base) = φ acc * φ base ^ n := by
  induction width generalizing n acc base with
  | zero =>
    have h0 : n = 0 := by omega
    rw [powBySquaring, h0, pow_zero, mul_one]
  | succ width ih =>
    have hhalf : n / 2 < 2 ^ width := by omega
    have hacc : φ (if n % 2 = 1 then mul acc base else acc) = φ acc * φ base ^ (n % 2) := by
      split_ifs with hodd
      · rw [hmul, hodd, pow_one]
      · have h0 : n % 2 = 0 := by omega
        rw [h0, pow_zero, mul_one]
    rw [powBySquaring]
    by_cases hlast : n / 2 = 0
    · have hbit : n % 2 = n := by omega
      rw [if_pos hlast, hacc, hbit]
    · rw [if_neg hlast, ih hhalf, hacc, hmul, ← pow_two, ← pow_mul, mul_assoc, ← pow_add,
        Nat.mod_add_div]

theorem powInt64_eq_pow (x : Int64) (n : UInt32) : powInt64 x n = x ^ n.toNat := by
  have h : powInt64 x n = 1 * x ^ n.toNat :=
    powBySquaring_eq_pow (φ := id) (fun _ _ => rfl) n.toNat_lt 1 x
  rw [h, one_mul]

namespace Poly

theorem expand_pow (p : Poly) (n : UInt32) : (p.pow n).expand = p.expand ^ n.toNat := by
  cases p with
  | coeff c => rw [pow, expand_coeff, expand_coeff, powInt64_eq_pow, map_pow]
  | sum ms =>
    rw [pow, powBySquaring_eq_pow expand_mul n.toNat_lt, expand_coeff, map_one, one_mul]

/-! ## One factor after the other -/

theorem expand_foldl_mul (ps : List Poly) (acc : Poly) :
    (ps.foldl mul acc).expand = acc.expand * (ps.map expand).prod := by
  induction ps generalizing acc with
  | nil => simp
  | cons p ps ih =>
    rw [List.foldl_cons, ih, expand_mul, List.map_cons, List.prod_cons, mul_assoc]

theorem isCanonical_foldl_mul (ps : List Poly) {acc : Poly} (h : acc.isCanonical = true) :
    (ps.foldl mul acc).isCanonical = true :=
  List.foldlRecOn (motive := (isCanonical · = true)) ps mul h fun acc _ p _ => isCanonical_mul acc p

/-- A power is the product of as many factors, multiplied one after the other from one on. This is
    an equality of trees, whatever form the factors have and whatever overflows on the way. The
    zeroth power of everything is one. -/
theorem pow_eq_repeated_product (p : Poly) :
    p.pow 0 = .coeff 1 ∧
      ∀ n : UInt32, p.pow n = (List.replicate n.toNat p).foldl mul (.coeff 1) := by
  have hpow (n : UInt32) : p.pow n = (List.replicate n.toNat p).foldl mul (.coeff 1) := by
    refine eq_of_expand_eq (isCanonical_pow p n) (isCanonical_foldl_mul _ rfl) ?_
    rw [expand_pow, expand_foldl_mul, expand_coeff, map_one, one_mul, List.map_replicate,
      List.prod_replicate]
  exact ⟨hpow 0, hpow⟩

/-- The cube of `2³² · x₀` is found by way of its square, which is the number zero. -/
example : (sum [⟨.coeff 4294967296, 1⟩]).pow 3 = .coeff 0 := by decide +kernel

end Poly

end PolyCalc
