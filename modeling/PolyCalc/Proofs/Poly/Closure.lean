import PolyCalc.Poly.Substitution
import PolyCalc.Proofs.Poly.Arithmetic

set_option autoImplicit false

/-! # Operations that stay canonical

Sum, negative and difference of canonical polynomials are canonical. Product, power, substitution,
evaluation and canonical form are canonical whatever their operands are: each of them builds its
result from numbers and canonical sums alone. -/

namespace PolyCalc

/-- What holds of every product and of the start value holds of powers by squaring. -/
theorem powBySquaring_of_mul {α : Type} {P : α → Prop} {mul : α → α → α}
    (hmul : ∀ a b, P (mul a b)) {width n : Nat} {acc base : α} (hacc : P acc) :
    P (powBySquaring mul width n acc base) := by
  induction width generalizing n acc base with
  | zero => exact hacc
  | succ width ih =>
    rw [powBySquaring]
    split_ifs
    · exact hmul acc base
    · exact hacc
    · exact ih (hmul acc base)
    · exact ih hacc

namespace Poly

open Wrapping

/-! ## Reduced lists -/

theorem isCanonical_ofReduced {ms : List (Mono Poly)} (hinc : ms.Pairwise (·.exp < ·.exp))
    (hcoef : ∀ m ∈ ms, m.coef.isCanonical = true ∧ m.coef.isZero = false) :
    (ofReduced ms).isCanonical = true := by
  rcases ofReduced_cases ms with ⟨-, h⟩ | ⟨c, -, h⟩ | ⟨hnil, hlone, h⟩
  · rw [h]
    rfl
  · rw [h]
    rfl
  · rw [h, isCanonical_sum]
    exact ⟨hnil, (Mono.increasing_iff_pairwise ms).mpr hinc, fun m hm => (hcoef m hm).symm, hlone⟩

theorem isCanonical_coef {ms : List (Mono Poly)} (h : (sum ms).isCanonical = true) :
    ∀ m ∈ ms, m.coef.isCanonical = true :=
  fun m hm => ((isCanonical_sum.mp h).2.2.1 m hm).2

/-! ## Sum, negative and difference -/

theorem layered_isCanonical : Layered (fun d p => p.depth ≤ d ∧ p.isCanonical = true) where
  coeff d c := ⟨layered_depth.coeff d c, rfl⟩
  not_sum ms h := layered_depth.not_sum ms h.1
  coefs d ms h m hm := ⟨layered_depth.coefs d ms h.1 m hm, isCanonical_coef h.2 m hm⟩
  ofReduced d ms hinc h :=
    ⟨layered_depth.ofReduced d ms hinc fun m hm => ⟨(h m hm).1.1, (h m hm).2⟩,
      isCanonical_ofReduced hinc fun m hm => ⟨(h m hm).1.2, (h m hm).2⟩⟩

theorem isCanonical_add {p q : Poly} (hp : p.isCanonical = true) (hq : q.isCanonical = true) :
    (p.add q).isCanonical = true :=
  (layered_isCanonical.addWithin _ p q ⟨Nat.le_max_left _ _, hp⟩ ⟨Nat.le_max_right _ _, hq⟩).2

theorem isCanonical_ofCanonicalMonos {ms : List (Mono Poly)}
    (h : ∀ m ∈ ms, m.coef.isCanonical = true) : (ofCanonicalMonos ms).isCanonical = true := by
  obtain ⟨rs, hrs, hinc, hcoef⟩ := exists_canonicalWith (P := (isCanonical · = true))
    (fun _ _ hp hq => isCanonical_add hp hq) h
  rw [ofCanonicalMonos, hrs]
  exact isCanonical_ofReduced hinc hcoef

theorem isZero_neg (p : Poly) : p.neg.isZero = p.isZero := by
  induction p using induct with
  | coeff c =>
    rw [neg, isZero, isZero, Bool.eq_iff_iff, beq_iff_eq, beq_iff_eq]
    exact neg_eq_zero
  | sum ms ih =>
    rw [neg, Bool.eq_iff_iff, isZero_sum, isZero_sum, negMonos_eq_map, List.forall_mem_map]
    exact forall₂_congr fun m hm => by rw [ih m hm]

/-- The negative is taken number by number, and a negative is zero only for zero: the shape of
    the tree stays as it is. -/
theorem isCanonical_neg {p : Poly} (hp : p.isCanonical = true) : p.neg.isCanonical = true := by
  induction p using induct with
  | coeff c => rfl
  | sum ms ih =>
    obtain ⟨hnil, hinc, hcoef, hlone⟩ := isCanonical_sum.mp hp
    rw [neg, isCanonical_sum, negMonos_eq_map]
    refine ⟨fun h => hnil (List.map_eq_nil_iff.mp h), ?_, ?_, ?_⟩
    · rw [Mono.increasing_iff_pairwise] at hinc ⊢
      exact List.pairwise_map.mpr hinc
    · refine List.forall_mem_map.mpr fun m hm => ⟨?_, ih m hm (hcoef m hm).2⟩
      rw [isZero_neg, (hcoef m hm).1]
    -- A lone constant term can only be the negative of another one.
    · rw [Bool.eq_false_iff, Ne, isLoneConstant_iff] at hlone ⊢
      rintro ⟨c, hc⟩
      obtain ⟨m, rfl, hm⟩ := List.map_eq_singleton_iff.mp hc
      obtain ⟨p, e⟩ := m
      obtain ⟨hneg, rfl⟩ := Mono.mk.inj hm
      cases p with
      | coeff a => exact hlone ⟨a, rfl⟩
      | sum ns => exact absurd hneg (by simp [neg])

theorem isCanonical_sub {p q : Poly} (hp : p.isCanonical = true) (hq : q.isCanonical = true) :
    (p.sub q).isCanonical = true :=
  isCanonical_add hp (isCanonical_neg hq)

/-! ## Product and power -/

theorem isCanonical_scale (c : Int64) (p : Poly) : (p.scale c).isCanonical = true := by
  induction p using induct with
  | coeff a => rfl
  | sum ms ih =>
    rw [scale]
    split_ifs
    · rfl
    · rw [scaleMonos_eq_map]
      exact isCanonical_ofCanonicalMonos (List.forall_mem_map.mpr ih)

theorem isCanonical_mul (p q : Poly) : (p.mul q).isCanonical = true := by
  induction p using induct generalizing q with
  | coeff c =>
    rw [mul]
    exact isCanonical_scale c q
  | sum ms ih =>
    cases q with
    | coeff c =>
      rw [mul]
      exact isCanonical_scale c (.sum ms)
    | sum ns =>
      rw [mul, mulMonos_eq_flatMap]
      refine isCanonical_ofCanonicalMonos fun k hk => ?_
      obtain ⟨m, hm, hk⟩ := List.mem_flatMap.mp hk
      obtain ⟨n, -, rfl⟩ := List.mem_map.mp hk
      exact ih m hm n.coef

theorem isCanonical_pow (p : Poly) (n : UInt32) : (p.pow n).isCanonical = true := by
  cases p with
  | coeff c => rfl
  | sum ms => exact powBySquaring_of_mul (P := (isCanonical · = true)) isCanonical_mul rfl

/-! ## Canonical form, substitution and evaluation -/

theorem isCanonical_normalize (p : Poly) : p.normalize.isCanonical = true := by
  induction p using induct with
  | coeff c => rfl
  | sum ms ih =>
    rw [normalize, normalizeMonos_eq_map]
    exact isCanonical_ofCanonicalMonos (List.forall_mem_map.mpr ih)

/-- What a monomial contributes when `qs` are put for the variables. -/
def composeMono (qs : List Poly) (m : Mono Poly) : Poly :=
  match qs with
  | q :: rest => mul (pow q m.exp) (compose m.coef rest)
  | [] => if m.exp = 0 then compose m.coef [] else zero

/-- Substitution in a sum adds up the contributions of its monomials from left to right. -/
theorem compose_sum (ms : List (Mono Poly)) (qs : List Poly) :
    (sum ms).compose qs = (ms.map (composeMono qs)).foldl add zero := by
  rw [compose]
  generalize zero = acc
  induction ms generalizing acc with
  | nil => rfl
  | cons m ms ih => exact ih _

theorem isCanonical_compose (p : Poly) (qs : List Poly) : (p.compose qs).isCanonical = true := by
  induction p using induct generalizing qs with
  | coeff c => rfl
  | sum ms ih =>
    rw [compose_sum]
    have hterms : ∀ t ∈ ms.map (composeMono qs), t.isCanonical = true := by
      refine List.forall_mem_map.mpr fun m hm => ?_
      unfold composeMono
      split
      · exact isCanonical_mul _ _
      · split_ifs
        · exact ih m hm []
        · rfl
    have hzero : zero.isCanonical = true := rfl
    exact List.foldlRecOn (motive := (isCanonical · = true)) _ add hzero
      fun acc hacc t ht => isCanonical_add hacc (hterms t ht)

theorem isCanonical_evalFirst (x : Int64) (p : Poly) : (p.evalFirst x).isCanonical = true := by
  cases p with
  | coeff c => rfl
  | sum ms =>
    refine isCanonical_ofCanonicalMonos fun k hk => ?_
    obtain ⟨m, -, hk⟩ := List.mem_flatMap.mp hk
    unfold evalMono at hk
    split at hk
    · rw [List.mem_singleton.mp hk]
      rfl
    · obtain ⟨n, -, rfl⟩ := List.mem_map.mp hk
      exact isCanonical_mul _ _

/-- The polynomial `2⁶³ · x₀ ^ (2³² - 1)`: twice it is zero, and so is its square, and `x₀` times it
    is a number. -/
def overflowing : Poly := .sum [⟨.coeff (-9223372036854775808), 4294967295⟩]

/-- Every operation leads from canonical polynomials to canonical ones. The polynomials put for
    variables may have any form. -/
theorem isCanonical_operations {p q : Poly} (hp : p.isCanonical = true)
    (hq : q.isCanonical = true) (qs : List Poly) (n : UInt32) (x : Int64) :
    (p.add q).isCanonical = true ∧ (p.sub q).isCanonical = true ∧
      (p.mul q).isCanonical = true ∧ p.neg.isCanonical = true ∧
      (p.pow n).isCanonical = true ∧ (p.evalFirst x).isCanonical = true ∧
      (p.compose qs).isCanonical = true :=
  ⟨isCanonical_add hp hq, isCanonical_sub hp hq, isCanonical_mul p q, isCanonical_neg hp,
    isCanonical_pow p n, isCanonical_evalFirst x p, isCanonical_compose p qs⟩

theorem isCanonical_operations_overflowing :
    overflowing.isCanonical = true ∧ (var 0).isCanonical = true ∧
      (overflowing.add (var 0)).isCanonical = true ∧
      (overflowing.sub (var 0)).isCanonical = true ∧
      (overflowing.mul (var 0)).isCanonical = true ∧ overflowing.neg.isCanonical = true ∧
      (overflowing.pow 2).isCanonical = true ∧ (overflowing.evalFirst 2).isCanonical = true ∧
      (overflowing.compose [var 1]).isCanonical = true :=
  ⟨by decide, by decide,
    isCanonical_operations (p := overflowing) (q := var 0) (by decide) (by decide) [var 1] 2 2⟩

example : overflowing.mul (var 0) = .coeff (-9223372036854775808) := by decide +kernel

end Poly

end PolyCalc
