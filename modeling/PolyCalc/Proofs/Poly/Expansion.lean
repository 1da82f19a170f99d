import Mathlib.Algebra.BigOperators.Finprod
import Mathlib.Algebra.MonoidAlgebra.MapDomain
import Mathlib.Data.List.ToFinsupp
import Mathlib.Data.UInt
import Mathlib.Order.Lattice.Nat
import PolyCalc.Poly.Arithmetic

set_option autoImplicit false

/-! # Expansions

Multiplied out, a polynomial is a finite sum of terms `c · x₀^e₀ · x₁^e₁ · …`. Such sums are the
elements of `Expansion`, the monoid algebra of the exponent sequences over the 64-bit integers. It
is a commutative ring, overflow included: coefficients wrap at 64 bits, and the exponents of a
product wrap at 32.

`Poly.expand` multiplies a tree out, and `Poly.coeff_expand` says that the coefficients it yields
are those of `Poly.coef`. What an operation computes is from then on an equation in the ring. -/

namespace PolyCalc

/-! ## Wrapping integers -/

namespace Wrapping

/-- The 64-bit integers are a commutative ring. The instance is scoped: outside of this theory the
    operators on numbers are the built-in ones. -/
scoped instance int64CommRing : CommRing Int64 where
  add_assoc := Int64.add_assoc
  zero_add := Int64.zero_add
  add_zero := Int64.add_zero
  add_comm := Int64.add_comm
  neg_add_cancel := Int64.add_left_neg
  sub_eq_add_neg := Int64.sub_eq_add_neg
  nsmul := nsmulRec
  zsmul := zsmulRec
  mul_assoc := Int64.mul_assoc
  mul_comm := Int64.mul_comm
  one_mul := Int64.one_mul
  mul_one := Int64.mul_one
  zero_mul _ := Int64.zero_mul
  mul_zero _ := Int64.mul_zero
  left_distrib _ _ _ := Int64.mul_add
  right_distrib _ _ _ := Int64.add_mul
  npow n x := x ^ n
  npow_zero x := Int64.pow_zero x
  npow_succ n x := Int64.pow_succ x n

end Wrapping

open Wrapping

/-! ## Exponents -/

/-- The exponents of `x₀, x₁, …`, of which all but finitely many are zero. -/
abbrev Exponents := ℕ →₀ UInt32

namespace Exponents

/-- The exponents one variable later, after a zeroth power of `x₀`. -/
noncomputable def shift : Exponents →+ Exponents := Finsupp.mapDomain.addMonoidHom Nat.succ

/-- The exponent `d` of `x₀`, followed by `e`. -/
noncomputable def cons (d : UInt32) (e : Exponents) : Exponents := Finsupp.single 0 d + shift e

/-- The exponents up to the last one that is not zero. -/
def toList (e : Exponents) : List UInt32 := (List.range (e.support.sup Nat.succ)).map e

theorem shift_apply_zero (e : Exponents) : shift e 0 = 0 :=
  Finsupp.mapDomain_of_notMem_range e 0 (by simp)

theorem shift_apply_succ (e : Exponents) (i : ℕ) : shift e (i + 1) = e i :=
  Finsupp.mapDomain_apply Nat.succ_injective e i

theorem shift_injective : Function.Injective shift :=
  Finsupp.mapDomain_injective Nat.succ_injective

theorem cons_apply_zero (d : UInt32) (e : Exponents) : cons d e 0 = d := by
  rw [cons, Finsupp.add_apply, shift_apply_zero, Finsupp.single_eq_same, add_zero]

theorem cons_apply_succ (d : UInt32) (e : Exponents) (i : ℕ) : cons d e (i + 1) = e i := by
  rw [cons, Finsupp.add_apply, shift_apply_succ, Finsupp.single_eq_of_ne (by simp), zero_add]

/-- Padded with zeros, a list is its head followed by its tail. -/
theorem toFinsupp_eq_cons (es : List UInt32) :
    es.toFinsupp = cons (es.headD 0) es.tail.toFinsupp := by
  refine Finsupp.ext fun i => ?_
  cases i with
  | zero => rw [cons_apply_zero]; cases es <;> rfl
  | succ i => rw [cons_apply_succ]; cases es <;> rfl

theorem cons_eq_zero_iff (d : UInt32) (e : Exponents) : cons d e = 0 ↔ d = 0 ∧ e = 0 := by
  constructor
  · intro h
    refine ⟨?_, Finsupp.ext fun i => ?_⟩
    · rw [← cons_apply_zero d e, h, Finsupp.zero_apply]
    · rw [← cons_apply_succ d e, h, Finsupp.zero_apply, Finsupp.zero_apply]
  · rintro ⟨rfl, rfl⟩
    rw [cons, Finsupp.single_zero, map_zero, zero_add]

theorem toFinsupp_eq_zero_iff (es : List UInt32) :
    es.toFinsupp = 0 ↔ es.all (· == 0) = true := by
  induction es with
  | nil => simp
  | cons d es ih =>
    rw [toFinsupp_eq_cons, cons_eq_zero_iff, List.headD_cons, List.tail_cons, ih, List.all_cons,
      Bool.and_eq_true, beq_iff_eq]

theorem toFinsupp_toList (e : Exponents) : (toList e).toFinsupp = e := by
  refine Finsupp.ext fun i => ?_
  rw [List.toFinsupp_apply, toList]
  by_cases h : i < e.support.sup Nat.succ
  · rw [List.getD_eq_getElem _ _ (by simpa using h), List.getElem_map, List.getElem_range]
  · rw [List.getD_eq_default _ _ (by simpa using h)]
    have hmem : i ∉ e.support := fun hmem =>
      h (Finset.le_sup hmem : Nat.succ i ≤ e.support.sup Nat.succ)
    exact (Finsupp.notMem_support_iff.mp hmem).symm

end Exponents

/-! ## Expansions -/

/-- A sum of finitely many terms, each a number times a product of powers of variables. -/
abbrev Expansion := AddMonoidAlgebra Int64 Exponents

namespace Expansion

/-- A number as an expansion. -/
noncomputable def const : Int64 →+* Expansion := AddMonoidAlgebra.singleZeroRingHom

/-- The power `x₀ᵉ`. -/
noncomputable def power (e : UInt32) : Expansion :=
  AddMonoidAlgebra.single (Finsupp.single 0 e) 1

/-- Renames every variable to the one after it. -/
noncomputable def shift : Expansion →+* Expansion :=
  AddMonoidAlgebra.mapDomainRingHom Int64 Exponents.shift

theorem power_add (d e : UInt32) : power (d + e) = power d * power e := by
  rw [power, power, power, AddMonoidAlgebra.single_mul_single, ← Finsupp.single_add, one_mul]

theorem power_zero : power 0 = 1 := by
  rw [power, Finsupp.single_zero]
  rfl

theorem shift_single (e : Exponents) (c : Int64) :
    shift (AddMonoidAlgebra.single e c) = AddMonoidAlgebra.single (Exponents.shift e) c :=
  AddMonoidAlgebra.mapDomain_single

theorem shift_const (c : Int64) : shift (const c) = const c := by
  show shift (AddMonoidAlgebra.single 0 c) = _
  rw [shift_single, map_zero]
  rfl

theorem coeff_const (c : Int64) (e : Exponents) :
    (const c).coeff e = if e = 0 then c else 0 := by
  show Finsupp.single 0 c e = _
  rw [Finsupp.single_apply]
  exact if_congr eq_comm rfl rfl

/-- The coefficients of `x₀ᵈ` times an expansion in the later variables. -/
theorem coeff_power_mul_shift (d d' : UInt32) (a : Expansion) (e : Exponents) :
    (power d * shift a).coeff (Exponents.cons d' e) = if d = d' then a.coeff e else 0 := by
  -- Dividing by `x₀ᵈ` lowers the exponent of `x₀` by `d`, modulo 2 ^ 32.
  have hrest : -Finsupp.single 0 d + Exponents.cons d' e = Exponents.cons (d' - d) e := by
    rw [Exponents.cons, Exponents.cons, ← add_assoc, ← Finsupp.single_neg, ← Finsupp.single_add,
      neg_add_eq_sub]
  rw [power, AddMonoidAlgebra.coeff_single_mul_apply, one_mul, hrest]
  show Finsupp.mapDomain Exponents.shift a.coeff _ = _
  by_cases h : d = d'
  · subst h
    rw [if_pos rfl, sub_self, Exponents.cons, Finsupp.single_zero, zero_add]
    exact Finsupp.mapDomain_apply Exponents.shift_injective a.coeff e
  · rw [if_neg h]
    refine Finsupp.mapDomain_of_notMem_range a.coeff _ ?_
    rintro ⟨e', he'⟩
    have h0 := DFunLike.congr_fun he' 0
    rw [Exponents.shift_apply_zero, Exponents.cons_apply_zero] at h0
    exact h (sub_eq_zero.mp h0.symm).symm

/-- The coefficient of a product: the sum of the products of coefficients over all pairs of
    exponents that add up to the given ones. -/
theorem coeff_mul_eq_finsum (a b : Expansion) (e : Exponents) :
    {x : Exponents × Exponents | x.1 + x.2 = e ∧ a.coeff x.1 * b.coeff x.2 ≠ 0}.Finite ∧
      (a * b).coeff e = ∑ᶠ (x : Exponents × Exponents) (_ : x.1 + x.2 = e),
        a.coeff x.1 * b.coeff x.2 := by
  -- The pairs that count are among finitely many: both coefficients differ from zero there.
  let t := {x ∈ a.coeff.support ×ˢ b.coeff.support | x.1 + x.2 = e}
  have ht : ∀ x : Exponents × Exponents, a.coeff x.1 * b.coeff x.2 ≠ 0 →
      (x.1 + x.2 = e ↔ x ∈ t) := by
    intro x hx
    have ha := Finsupp.mem_support_iff.mpr (left_ne_zero_of_mul hx)
    have hb := Finsupp.mem_support_iff.mpr (right_ne_zero_of_mul hx)
    rw [Finset.mem_filter, Finset.mem_product]
    exact ⟨fun h => ⟨⟨ha, hb⟩, h⟩, fun h => h.2⟩
  constructor
  · exact t.finite_toSet.subset fun x hx => (ht x hx.2).mp hx.1
  · rw [finsum_cond_eq_sum_of_cond_iff _ fun {x} => ht x, AddMonoidAlgebra.coeff_mul,
      Finset.sum_filter, Finset.sum_product]
    rfl

end Expansion

/-! ## Multiplying a tree out -/

namespace Poly

mutual

/-- The polynomial, multiplied out. -/
noncomputable def expand : Poly → Expansion
  | .coeff c => Expansion.const c
  | .sum ms => expandMonos ms

/-- The sum of a list of monomials, multiplied out. -/
noncomputable def expandMonos : List (Mono Poly) → Expansion
  | [] => 0
  | ⟨p, e⟩ :: ms => Expansion.power e * Expansion.shift (expand p) + expandMonos ms

end

end Poly

/-- A monomial, multiplied out. -/
noncomputable def Mono.expand (m : Mono Poly) : Expansion :=
  Expansion.power m.exp * Expansion.shift m.coef.expand

theorem Mono.expand_mk (p : Poly) (e : UInt32) :
    (Mono.mk p e).expand = Expansion.power e * Expansion.shift p.expand := rfl

/-- A constant term is a number. -/
theorem Mono.expand_constant (c : Int64) :
    (Mono.mk (.coeff c) 0).expand = Expansion.const c := by
  rw [expand_mk, Poly.expand, Expansion.shift_const, Expansion.power_zero, one_mul]

/-- The coefficients of a sum of monomials: those with the exponent `d` add up at the exponents that
    follow it. -/
theorem Mono.coeff_sum_expand (ms : List (Mono Poly)) (d : UInt32) (e : Exponents) :
    (ms.map Mono.expand).sum.coeff (Exponents.cons d e) =
      (ms.map (fun m => if m.exp = d then m.coef.expand.coeff e else 0)).sum := by
  induction ms with
  | nil => rfl
  | cons m ms ih =>
    rw [List.map_cons, List.sum_cons, List.map_cons, List.sum_cons, ← ih,
      AddMonoidAlgebra.coeff_add, Finsupp.add_apply, Mono.expand, Expansion.coeff_power_mul_shift]

namespace Poly

theorem expand_coeff (c : Int64) : (coeff c).expand = Expansion.const c := rfl

theorem expand_sum (ms : List (Mono Poly)) : (sum ms).expand = (ms.map Mono.expand).sum := by
  show expandMonos ms = _
  induction ms with
  | nil => rfl
  | cons m ms ih => rw [List.map_cons, List.sum_cons, ← ih]; rfl

theorem coefMonos_eq_sum (ms : List (Mono Poly)) (e : UInt32) (es : List UInt32) :
    coefMonos ms e es = (ms.map (fun m => if m.exp = e then m.coef.coef es else 0)).sum := by
  induction ms with
  | nil => rfl
  | cons m ms ih => rw [coefMonos_cons, List.map_cons, List.sum_cons, ih]

/-- The coefficients of the expansion are those of the tree. -/
theorem coeff_expand (p : Poly) (es : List UInt32) :
    p.expand.coeff es.toFinsupp = p.coef es := by
  induction p using induct generalizing es with
  | coeff c =>
    rw [expand_coeff, Expansion.coeff_const, coef]
    exact if_congr (Exponents.toFinsupp_eq_zero_iff es) rfl rfl
  | sum ms ih =>
    rw [expand_sum, Exponents.toFinsupp_eq_cons, Mono.coeff_sum_expand, coef, coefMonos_eq_sum]
    congr 1
    exact List.map_congr_left fun m hm => by rw [ih m hm]

/-! ## Coefficients at sequences of exponents -/

/-- The coefficient at a sequence of exponents. -/
def coefAt (p : Poly) (e : Exponents) : Int64 := p.coef (Exponents.toList e)

theorem coeff_expand_eq_coefAt (p : Poly) (e : Exponents) : p.expand.coeff e = p.coefAt e := by
  rw [coefAt, ← coeff_expand, Exponents.toFinsupp_toList]

theorem coefAt_coeff (c : Int64) (e : Exponents) :
    (coeff c).coefAt e = if e = 0 then c else 0 := by
  rw [← coeff_expand_eq_coefAt, expand_coeff, Expansion.coeff_const]

theorem coefAt_sum (ms : List (Mono Poly)) (d : UInt32) (e : Exponents) :
    (sum ms).coefAt (Exponents.cons d e) =
      (ms.map (fun m => if m.exp = d then m.coef.coefAt e else 0)).sum := by
  rw [← coeff_expand_eq_coefAt, expand_sum, Mono.coeff_sum_expand]
  simp only [coeff_expand_eq_coefAt]

end Poly

end PolyCalc
