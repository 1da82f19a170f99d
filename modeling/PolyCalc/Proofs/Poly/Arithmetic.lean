import Mathlib.Algebra.BigOperators.Ring.List
import PolyCalc.Proofs.Poly.LikeTerms

set_option autoImplicit false

/-! # What arithmetic computes

Sum, negative, difference and product of trees are those of their expansions, for canonical
operands and for all others: `expand_add`, `expand_neg`, `expand_sub`, `expand_mul`. No sum needs
sorted operands, and the overflow of coefficients and exponents is that of the ring. Canonical form
does not change the expansion (`expand_normalize`).

The addition recurses on a bound of the depth. `Layered` names the properties that it keeps: those
that pass from a sum to its coefficients, one level down, and back. What one level does is
`addLevel`, for any addition of the coefficients; each fact about the addition is proved of one
level, and then by induction on the bound. The bound itself does not matter as long as it is not
below the depth (`addWithin_eq_add`), so addition is one level of it with itself for the
coefficients (`add_eq_addLevel`). -/

namespace PolyCalc

namespace Poly

open Wrapping

variable {P : Poly → Prop} {plus plus' : Poly → Poly → Poly} {p q : Poly} {d : Nat}

/-! ## Adding a number to a list -/

theorem forall_addConstant (hadd : Mono.Closed P plus) {c : Int64} {ms : List (Mono Poly)}
    (hc : P (.coeff c)) (h : ∀ m ∈ ms, P m.coef) :
    ∀ m ∈ addWithin.addConstant plus c ms, P m.coef := by
  cases ms with
  | nil => exact List.forall_mem_singleton.mpr hc
  | cons m ms =>
    obtain ⟨hm, hms⟩ := List.forall_mem_cons.mp h
    rw [addWithin.addConstant]
    split_ifs with he
    · exact List.forall_mem_cons.mpr ⟨hadd _ _ hm hc, hms⟩
    · exact List.forall_mem_cons.mpr ⟨hc, h⟩

theorem addConstant_congr (hagree : Mono.Agree P plus plus') {c : Int64} {ms : List (Mono Poly)}
    (hc : P (.coeff c)) (h : ∀ m ∈ ms, P m.coef) :
    addWithin.addConstant plus c ms = addWithin.addConstant plus' c ms := by
  cases ms with
  | nil => rfl
  | cons m ms =>
    obtain ⟨hm, -⟩ := List.forall_mem_cons.mp h
    rw [addWithin.addConstant, addWithin.addConstant, hagree _ _ hm hc]

theorem sum_addConstant (hexp : ∀ p q, P p → P q → (plus p q).expand = p.expand + q.expand)
    {c : Int64} {ms : List (Mono Poly)} (hc : P (.coeff c)) (h : ∀ m ∈ ms, P m.coef) :
    ((addWithin.addConstant plus c ms).map Mono.expand).sum =
      Expansion.const c + (ms.map Mono.expand).sum := by
  cases ms with
  | nil => rw [addWithin.addConstant, List.map_cons, List.sum_cons, Mono.expand_constant]
  | cons m ms =>
    obtain ⟨hm, -⟩ := List.forall_mem_cons.mp h
    rw [addWithin.addConstant]
    split_ifs with he
    · have hm' : m = ⟨m.coef, 0⟩ := by rw [← he]
      rw [List.map_cons, List.sum_cons, List.map_cons, List.sum_cons,
        additive_expand hexp _ _ _ hm hc, he, ← hm', Mono.expand_constant, ← add_assoc,
        add_comm (Expansion.const c)]
    · rw [List.map_cons, List.sum_cons, Mono.expand_constant]

/-! ## One level of addition -/

/-- The sum of two polynomials whose coefficients are added by `plus`. -/
def addLevel (plus : Poly → Poly → Poly) : Poly → Poly → Poly
  | .coeff a, .coeff b => .coeff (a + b)
  | .coeff c, .sum ms => canonicalWith plus (addWithin.addConstant plus c ms)
  | .sum ms, .coeff c => canonicalWith plus (addWithin.addConstant plus c ms)
  | .sum ms, .sum ns => canonicalWith plus (Mono.merge plus ms ns)

theorem addWithin_succ (d : Nat) (p q : Poly) :
    addWithin (d + 1) p q = addLevel (addWithin d) p q := by
  cases p <;> cases q <;> rw [addWithin, addLevel]

/-- A property of polynomials of depth at most `d`, for every `d`: numbers have it, a sum hands it
    to its coefficients one level down, and a reduced list of monomials gets it back. -/
structure Layered (P : Nat → Poly → Prop) : Prop where
  coeff : ∀ d c, P d (.coeff c)
  not_sum : ∀ ms, ¬P 0 (.sum ms)
  coefs : ∀ d ms, P (d + 1) (.sum ms) → ∀ m ∈ ms, P d m.coef
  ofReduced : ∀ d ms, ms.Pairwise (·.exp < ·.exp) →
    (∀ m ∈ ms, P d m.coef ∧ m.coef.isZero = false) → P (d + 1) (ofReduced ms)

namespace Layered

variable {P : Nat → Poly → Prop}

theorem exists_coeff (hP : Layered P) (hp : P 0 p) : ∃ c, p = .coeff c := by
  cases p with
  | coeff c => exact ⟨c, rfl⟩
  | sum ms => exact absurd hp (hP.not_sum ms)

/-- Canonical form leads one level up. -/
theorem canonicalWith (hP : Layered P) (hadd : Mono.Closed (P d) plus) {ms : List (Mono Poly)}
    (h : ∀ m ∈ ms, P d m.coef) : P (d + 1) (Poly.canonicalWith plus ms) := by
  obtain ⟨rs, hrs, hinc, hcoef⟩ := exists_canonicalWith hadd h
  rw [hrs]
  exact hP.ofReduced d rs hinc hcoef

theorem addLevel (hP : Layered P) (hadd : Mono.Closed (P d) plus) :
    Mono.Closed (P (d + 1)) (Poly.addLevel plus) := by
  intro p q hp hq
  cases p with
  | coeff a =>
    cases q with
    | coeff b => exact hP.coeff _ _
    | sum ns =>
      have hns := hP.coefs d ns hq
      exact hP.canonicalWith hadd (forall_addConstant hadd (hP.coeff d a) hns)
  | sum ms =>
    have hms := hP.coefs d ms hp
    cases q with
    | coeff b => exact hP.canonicalWith hadd (forall_addConstant hadd (hP.coeff d b) hms)
    | sum ns => exact hP.canonicalWith hadd (Mono.forall_merge hadd hms (hP.coefs d ns hq))

/-- Additions that agree on the coefficients give the same sum. -/
theorem addLevel_congr (hP : Layered P) (hadd : Mono.Closed (P d) plus)
    (hagree : Mono.Agree (P d) plus plus') :
    Mono.Agree (P (d + 1)) (Poly.addLevel plus) (Poly.addLevel plus') := by
  intro p q hp hq
  have hconstant : ∀ (c : Int64) (ms : List (Mono Poly)), (∀ m ∈ ms, P d m.coef) →
      Poly.canonicalWith plus (addWithin.addConstant plus c ms) =
        Poly.canonicalWith plus' (addWithin.addConstant plus' c ms) := by
    intro c ms hms
    have hc := hP.coeff d c
    rw [← addConstant_congr hagree hc hms,
      canonicalWith_congr hadd hagree (forall_addConstant hadd hc hms)]
  cases p with
  | coeff a =>
    cases q with
    | coeff b => rfl
    | sum ns => exact hconstant a ns (hP.coefs d ns hq)
  | sum ms =>
    have hms := hP.coefs d ms hp
    cases q with
    | coeff b => exact hconstant b ms hms
    | sum ns =>
      have hns := hP.coefs d ns hq
      rw [Poly.addLevel, Poly.addLevel, ← Mono.merge_congr hagree hms hns,
        canonicalWith_congr hadd hagree (Mono.forall_merge hadd hms hns)]

/-- One level of an addition that is right on the coefficients is right. -/
theorem expand_addLevel (hP : Layered P) (hadd : Mono.Closed (P d) plus)
    (hexp : ∀ p q, P d p → P d q → (plus p q).expand = p.expand + q.expand)
    (hp : P (d + 1) p) (hq : P (d + 1) q) :
    (Poly.addLevel plus p q).expand = p.expand + q.expand := by
  have hconstant : ∀ (c : Int64) (ms : List (Mono Poly)), (∀ m ∈ ms, P d m.coef) →
      (Poly.canonicalWith plus (addWithin.addConstant plus c ms)).expand =
        Expansion.const c + (sum ms).expand := by
    intro c ms hms
    have hc := hP.coeff d c
    rw [expand_canonicalWith hadd hexp (forall_addConstant hadd hc hms),
      sum_addConstant hexp hc hms, expand_sum]
  cases p with
  | coeff a =>
    cases q with
    | coeff b => rw [Poly.addLevel, expand_coeff, map_add]; rfl
    | sum ns => rw [Poly.addLevel, hconstant a ns (hP.coefs d ns hq), expand_coeff]
  | sum ms =>
    have hms := hP.coefs d ms hp
    cases q with
    | coeff b => rw [Poly.addLevel, hconstant b ms hms, expand_coeff, add_comm]
    | sum ns =>
      have hns := hP.coefs d ns hq
      rw [Poly.addLevel, expand_canonicalWith hadd hexp (Mono.forall_merge hadd hms hns),
        Mono.sum_merge (additive_expand hexp) hms hns, expand_sum, expand_sum]

/-! ## Addition level by level -/

theorem addWithin (hP : Layered P) (d : Nat) : Mono.Closed (P d) (Poly.addWithin d) := by
  induction d with
  | zero =>
    intro p q hp hq
    obtain ⟨a, rfl⟩ := hP.exists_coeff hp
    obtain ⟨b, rfl⟩ := hP.exists_coeff hq
    rw [Poly.addWithin]
    exact hP.coeff 0 _
  | succ d ih =>
    intro p q hp hq
    rw [addWithin_succ]
    exact hP.addLevel ih p q hp hq

end Layered

theorem depth_sum_le_iff {ms : List (Mono Poly)} {d : Nat} :
    (sum ms).depth ≤ d + 1 ↔ ∀ m ∈ ms, m.coef.depth ≤ d := by
  rw [depth, Nat.add_comm, Nat.add_le_add_iff_right, depthMonos_le_iff]

theorem layered_depth : Layered (fun d p => p.depth ≤ d) where
  coeff d _ := Nat.zero_le d
  not_sum ms h := by
    rw [depth, Nat.add_comm] at h
    exact Nat.not_succ_le_zero _ h
  coefs _ _ h := depth_sum_le_iff.mp h
  ofReduced d ms _ h := by
    rcases ofReduced_cases ms with ⟨-, hms⟩ | ⟨c, -, hms⟩ | ⟨-, -, hms⟩
    · rw [hms]
      exact Nat.zero_le _
    · rw [hms]
      exact Nat.zero_le _
    · rw [hms, depth_sum_le_iff]
      exact fun m hm => (h m hm).1

theorem expand_addWithin (d : Nat) (p q : Poly) (hp : p.depth ≤ d) (hq : q.depth ≤ d) :
    (addWithin d p q).expand = p.expand + q.expand := by
  induction d generalizing p q with
  | zero =>
    obtain ⟨a, rfl⟩ := layered_depth.exists_coeff hp
    obtain ⟨b, rfl⟩ := layered_depth.exists_coeff hq
    rw [addWithin, expand_coeff, map_add]
    rfl
  -- Coefficients are at most `d` deep, and so are their sums: the induction reaches them all.
  | succ d ih =>
    rw [addWithin_succ]
    exact layered_depth.expand_addLevel (layered_depth.addWithin d) ih hp hq

/-- One level more than the operands have changes nothing. -/
theorem agree_addWithin_succ (d : Nat) :
    Mono.Agree (fun p => p.depth ≤ d) (addWithin d) (addWithin (d + 1)) := by
  induction d with
  | zero =>
    intro p q hp hq
    obtain ⟨a, rfl⟩ := layered_depth.exists_coeff hp
    obtain ⟨b, rfl⟩ := layered_depth.exists_coeff hq
    rw [addWithin, addWithin]
  | succ d ih =>
    intro p q hp hq
    rw [addWithin_succ, addWithin_succ]
    exact layered_depth.addLevel_congr (layered_depth.addWithin d) ih p q hp hq

/-- The bound on the depth never cuts an addition short: every bound that the operands keep gives
    the same tree. -/
theorem addWithin_eq_add (hp : p.depth ≤ d) (hq : q.depth ≤ d) : addWithin d p q = p.add q := by
  have hle : max p.depth q.depth ≤ d := Nat.max_le.mpr ⟨hp, hq⟩
  clear hp hq
  induction d, hle using Nat.le_induction with
  | base => rfl
  | succ d hle ih =>
    obtain ⟨hp, hq⟩ := Nat.max_le.mp hle
    rw [← agree_addWithin_succ d p q hp hq, ih]

/-- The equations of addition without a bound: one level, where the coefficients are added in the
    same way. -/
theorem add_eq_addLevel (p q : Poly) : p.add q = addLevel add p q := by
  have hp : p.depth ≤ max p.depth q.depth := Nat.le_max_left _ _
  have hq : q.depth ≤ max p.depth q.depth := Nat.le_max_right _ _
  rw [← addWithin_eq_add (Nat.le_succ_of_le hp) (Nat.le_succ_of_le hq), addWithin_succ]
  exact layered_depth.addLevel_congr (layered_depth.addWithin _)
    (fun _ _ => addWithin_eq_add) p q (Nat.le_succ_of_le hp) (Nat.le_succ_of_le hq)

/-! ## Sum, negative and difference -/

theorem expand_add (p q : Poly) : (p.add q).expand = p.expand + q.expand :=
  expand_addWithin _ p q (Nat.le_max_left _ _) (Nat.le_max_right _ _)

theorem expand_ofCanonicalMonos (ms : List (Mono Poly)) :
    (ofCanonicalMonos ms).expand = (ms.map Mono.expand).sum :=
  expand_canonicalWith (P := fun _ => True) (fun _ _ _ _ => trivial)
    (fun p q _ _ => expand_add p q) (fun _ _ => trivial)

/-- Where every coefficient is multiplied by a number, the sum is. -/
theorem sum_map_coef {f : Poly → Poly} {c : Int64} {ms : List (Mono Poly)}
    (h : ∀ m ∈ ms, (f m.coef).expand = m.coef.expand * Expansion.const c) :
    ((ms.map (fun m => Mono.mk (f m.coef) m.exp)).map Mono.expand).sum =
      (sum ms).expand * Expansion.const c := by
  rw [expand_sum, List.map_map, ← List.sum_map_mul_right]
  congr 1
  refine List.map_congr_left fun m hm => ?_
  rw [Function.comp_apply, Mono.expand_mk, h m hm, map_mul, Expansion.shift_const, ← mul_assoc]
  rfl

theorem expand_neg (p : Poly) : p.neg.expand = -p.expand := by
  rw [← mul_neg_one, ← map_one Expansion.const, ← map_neg]
  induction p using induct with
  | coeff c => rw [neg, expand_coeff, expand_coeff, ← map_mul, mul_neg_one]
  | sum ms ih => rw [neg, expand_sum, negMonos_eq_map, sum_map_coef ih]

theorem expand_sub (p q : Poly) : (p.sub q).expand = p.expand - q.expand := by
  rw [sub, expand_add, expand_neg, sub_eq_add_neg]

/-! ## Product -/

theorem expand_scale (c : Int64) (p : Poly) :
    (p.scale c).expand = p.expand * Expansion.const c := by
  induction p using induct with
  | coeff a => rw [scale, expand_coeff, expand_coeff, map_mul]
  | sum ms ih =>
    rw [scale]
    split_ifs with hc
    · rw [hc, map_zero, mul_zero]
      exact map_zero Expansion.const
    · rw [expand_ofCanonicalMonos, scaleMonos_eq_map, sum_map_coef ih]

/-- The products of one monomial with each of a list. -/
theorem sum_map_mul_mono {m : Mono Poly} {ns : List (Mono Poly)}
    (h : ∀ n ∈ ns, (m.coef.mul n.coef).expand = m.coef.expand * n.coef.expand) :
    ((ns.map (fun n => Mono.mk (m.coef.mul n.coef) (m.exp + n.exp))).map Mono.expand).sum =
      m.expand * (ns.map Mono.expand).sum := by
  rw [List.map_map, ← List.sum_map_mul_left]
  congr 1
  refine List.map_congr_left fun n hn => ?_
  rw [Function.comp_apply, Mono.expand_mk, h n hn, map_mul, Expansion.power_add,
    mul_mul_mul_comm]
  rfl

theorem expand_mul (p q : Poly) : (p.mul q).expand = p.expand * q.expand := by
  induction p using induct generalizing q with
  | coeff c => rw [mul, expand_scale, expand_coeff, mul_comm]
  | sum ms ih =>
    cases q with
    | coeff c => rw [mul, expand_scale, expand_coeff]
    | sum ns =>
      rw [mul, expand_ofCanonicalMonos, mulMonos_eq_flatMap, expand_sum, expand_sum]
      induction ms with
      | nil => rw [List.flatMap_nil, List.map_nil, List.sum_nil, zero_mul]
      | cons m ms ihms =>
        obtain ⟨hm, hms⟩ := List.forall_mem_cons.mp ih
        rw [List.flatMap_cons, List.map_append, List.sum_append, ihms hms,
          sum_map_mul_mono fun n _ => hm n.coef, List.map_cons, List.sum_cons, add_mul]

/-! ## Canonical form -/

theorem expand_normalize (p : Poly) : p.normalize.expand = p.expand := by
  rw [← mul_one p.expand, ← map_one Expansion.const]
  induction p using induct with
  | coeff c => rw [normalize, map_one, mul_one]
  | sum ms ih => rw [normalize, expand_ofCanonicalMonos, normalizeMonos_eq_map, sum_map_coef ih]

/-! ## Coefficients of the results -/

/-- The coefficients of sum, negative, difference and product, for operands of any form. The
    coefficient of a product is the sum over all pairs of exponents that add up to the given ones,
    of which finitely many count. -/
theorem coefAt_arithmetic (p q : Poly) (e : Exponents) :
    (p.add q).coefAt e = p.coefAt e + q.coefAt e ∧
      p.neg.coefAt e = -p.coefAt e ∧
      (p.sub q).coefAt e = p.coefAt e - q.coefAt e ∧
      {x : Exponents × Exponents | x.1 + x.2 = e ∧ p.coefAt x.1 * q.coefAt x.2 ≠ 0}.Finite ∧
      (p.mul q).coefAt e =
        ∑ᶠ (x : Exponents × Exponents) (_ : x.1 + x.2 = e), p.coefAt x.1 * q.coefAt x.2 := by
  simp only [← coeff_expand_eq_coefAt, expand_add, expand_neg, expand_sub, expand_mul]
  exact ⟨rfl, rfl, rfl, Expansion.coeff_mul_eq_finsum p.expand q.expand e⟩

end Poly

end PolyCalc
