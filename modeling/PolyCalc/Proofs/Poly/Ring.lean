import PolyCalc.Proofs.Poly.NormalForm

set_option autoImplicit false

/-! # The ring of canonical polynomials

The canonical polynomials are a commutative ring in which equality is that of trees: the expansion
is injective on them and turns the operations into those of a commutative ring. Nothing is assumed
of coefficients and exponents, so the laws hold across overflow, with all the zero divisors that it
brings. -/

namespace PolyCalc

open Wrapping

/-- A polynomial in canonical form. -/
def CanonicalPoly := {p : Poly // p.isCanonical = true}

namespace CanonicalPoly

instance : Add CanonicalPoly := ⟨fun p q => ⟨p.1.add q.1, Poly.isCanonical_add p.2 q.2⟩⟩
instance : Neg CanonicalPoly := ⟨fun p => ⟨p.1.neg, Poly.isCanonical_neg p.2⟩⟩
instance : Sub CanonicalPoly := ⟨fun p q => ⟨p.1.sub q.1, Poly.isCanonical_sub p.2 q.2⟩⟩
instance : Mul CanonicalPoly := ⟨fun p q => ⟨p.1.mul q.1, Poly.isCanonical_mul p.1 q.1⟩⟩
instance : Zero CanonicalPoly := ⟨⟨Poly.zero, rfl⟩⟩
instance : One CanonicalPoly := ⟨⟨.coeff 1, rfl⟩⟩

/-- The polynomial, multiplied out. -/
noncomputable def expand (p : CanonicalPoly) : Expansion := p.1.expand

theorem expand_injective : Function.Injective expand :=
  fun p q h => Subtype.ext (Poly.eq_of_expand_eq p.2 q.2 h)

theorem expand_add (p q : CanonicalPoly) : (p + q).expand = p.expand + q.expand :=
  Poly.expand_add p.1 q.1

theorem expand_neg (p : CanonicalPoly) : (-p).expand = -p.expand := Poly.expand_neg p.1

theorem expand_sub (p q : CanonicalPoly) : (p - q).expand = p.expand - q.expand :=
  Poly.expand_sub p.1 q.1

theorem expand_mul (p q : CanonicalPoly) : (p * q).expand = p.expand * q.expand :=
  Poly.expand_mul p.1 q.1

theorem expand_zero : (0 : CanonicalPoly).expand = 0 := map_zero Expansion.const

theorem expand_one : (1 : CanonicalPoly).expand = 1 := map_one Expansion.const

instance : CommRing CanonicalPoly where
  add_assoc a b c := expand_injective (by simp only [expand_add, add_assoc])
  zero_add a := expand_injective (by rw [expand_add, expand_zero, zero_add])
  add_zero a := expand_injective (by rw [expand_add, expand_zero, add_zero])
  add_comm a b := expand_injective (by rw [expand_add, expand_add, add_comm])
  neg_add_cancel a := expand_injective (by
    rw [expand_add, expand_neg, expand_zero, neg_add_cancel])
  sub_eq_add_neg a b := expand_injective (by
    rw [expand_sub, expand_add, expand_neg, sub_eq_add_neg])
  nsmul := nsmulRec
  zsmul := zsmulRec
  mul_assoc a b c := expand_injective (by simp only [expand_mul, mul_assoc])
  mul_comm a b := expand_injective (by rw [expand_mul, expand_mul, mul_comm])
  one_mul a := expand_injective (by rw [expand_mul, expand_one, one_mul])
  mul_one a := expand_injective (by rw [expand_mul, expand_one, mul_one])
  zero_mul a := expand_injective (by rw [expand_mul, expand_zero, zero_mul])
  mul_zero a := expand_injective (by rw [expand_mul, expand_zero, mul_zero])
  left_distrib a b c := expand_injective (by simp only [expand_mul, expand_add, mul_add])
  right_distrib a b c := expand_injective (by simp only [expand_mul, expand_add, add_mul])

end CanonicalPoly

namespace Poly

/-- The laws of a commutative ring, as equalities of trees. -/
theorem canonical_ring_laws {a b c : Poly} (ha : a.isCanonical = true)
    (hb : b.isCanonical = true) (hc : c.isCanonical = true) :
    a.add b = b.add a ∧
      (a.add b).add c = a.add (b.add c) ∧
      a.add (.coeff 0) = a ∧
      a.add a.neg = .coeff 0 ∧
      a.sub a = .coeff 0 ∧
      a.mul b = b.mul a ∧
      (a.mul b).mul c = a.mul (b.mul c) ∧
      a.mul (.coeff 1) = a ∧
      a.mul (b.add c) = (a.mul b).add (a.mul c) := by
  let x : CanonicalPoly := ⟨a, ha⟩
  let y : CanonicalPoly := ⟨b, hb⟩
  let z : CanonicalPoly := ⟨c, hc⟩
  refine ⟨?_, ?_, ?_, ?_, ?_, ?_, ?_, ?_, ?_⟩
  · exact congrArg Subtype.val (add_comm x y)
  · exact congrArg Subtype.val (add_assoc x y z)
  · exact congrArg Subtype.val (add_zero x)
  · exact congrArg Subtype.val (add_neg_cancel x)
  · exact congrArg Subtype.val (sub_self x)
  · exact congrArg Subtype.val (mul_comm x y)
  · exact congrArg Subtype.val (mul_assoc x y z)
  · exact congrArg Subtype.val (mul_one x)
  · exact congrArg Subtype.val (mul_add x y z)

theorem canonical_ring_laws_overflowing :
    overflowing.isCanonical = true ∧ (var 0).isCanonical = true ∧ (var 1).isCanonical = true ∧
      overflowing.add (var 0) = (var 0).add overflowing ∧
      (overflowing.add (var 0)).add (var 1) = overflowing.add ((var 0).add (var 1)) ∧
      overflowing.add (.coeff 0) = overflowing ∧
      overflowing.add overflowing.neg = .coeff 0 ∧
      overflowing.sub overflowing = .coeff 0 ∧
      overflowing.mul (var 0) = (var 0).mul overflowing ∧
      (overflowing.mul (var 0)).mul (var 1) = overflowing.mul ((var 0).mul (var 1)) ∧
      overflowing.mul (.coeff 1) = overflowing ∧
      overflowing.mul ((var 0).add (var 1)) =
        (overflowing.mul (var 0)).add (overflowing.mul (var 1)) :=
  ⟨by decide, by decide, by decide,
    canonical_ring_laws (a := overflowing) (b := var 0) (c := var 1) (by decide) (by decide)
      (by decide)⟩

end Poly

end PolyCalc
