import PolyCalc.Proofs.Poly.Closure

set_option autoImplicit false

/-! # Canonical form is unique

A canonical polynomial is determined by its coefficients (`eq_of_coef_eq`). Two facts carry the
induction over a pair of trees: a canonical polynomial that is not written as zero has a
coefficient other than zero, and a canonical sum has one at exponents that are not all zero, so it
differs from every number.

With the existence of a canonical form of every tree this makes it a normal form: two trees have the
same one exactly if they have the same coefficients. -/

namespace PolyCalc

namespace Poly

open Wrapping

/-! ## Coefficients of lists with increasing exponents -/

theorem coef_sum_cons (ms : List (Mono Poly)) (e : UInt32) (es : List UInt32) :
    (sum ms).coef (e :: es) = coefMonos ms e es := rfl

theorem coefMonos_eq_zero {ms : List (Mono Poly)} {e : UInt32} (h : ∀ m ∈ ms, m.exp ≠ e)
    (es : List UInt32) : coefMonos ms e es = 0 := by
  induction ms with
  | nil => rfl
  | cons m ms ih =>
    obtain ⟨hm, hms⟩ := List.forall_mem_cons.mp h
    rw [coefMonos_cons, if_neg hm, ih hms, Int64.add_zero]

/-- Where exponents increase, each is that of one monomial. -/
theorem coefMonos_of_mem {ms : List (Mono Poly)} (hinc : Mono.increasing ms = true)
    {m : Mono Poly} (hm : m ∈ ms) (es : List UInt32) :
    coefMonos ms m.exp es = m.coef.coef es := by
  rw [Mono.increasing_iff_pairwise] at hinc
  induction ms with
  | nil => exact absurd hm List.not_mem_nil
  | cons n ns ih =>
    obtain ⟨hn, hns⟩ := List.pairwise_cons.mp hinc
    rw [coefMonos_cons]
    rcases List.mem_cons.mp hm with rfl | hm
    · rw [if_pos rfl, coefMonos_eq_zero (fun k hk => (UInt32.ne_of_lt (hn k hk)).symm) es,
        Int64.add_zero]
    · rw [if_neg (UInt32.ne_of_lt (hn m hm)), ih hns hm, Int64.zero_add]

theorem eq_singleton_of_exp_eq_zero {ms : List (Mono Poly)} (hinc : Mono.increasing ms = true)
    (hexp : ∀ m ∈ ms, m.exp = 0) {m : Mono Poly} (hm : m ∈ ms) : ms = [m] := by
  rw [Mono.increasing_iff_pairwise] at hinc
  cases ms with
  | nil => exact absurd hm List.not_mem_nil
  | cons n ns =>
    obtain ⟨hn, hns⟩ := List.forall_mem_cons.mp hexp
    have hnil : ns = [] := by
      refine List.eq_nil_iff_forall_not_mem.mpr fun k hk => ?_
      have hlt := (List.pairwise_cons.mp hinc).1 k hk
      rw [hn, hns k hk] at hlt
      exact UInt32.lt_irrefl 0 hlt
    rw [hnil] at hm ⊢
    rw [List.mem_singleton.mp hm]

/-- A canonical sum in which the variable of its level does not occur is one in the later
    variables. -/
theorem isConstant_coef_of_exp_eq_zero {ms : List (Mono Poly)}
    (h : (sum ms).isCanonical = true) (hexp : ∀ m ∈ ms, m.exp = 0) {m : Mono Poly}
    (hm : m ∈ ms) : m.coef.isConstant = false := by
  obtain ⟨-, hinc, -, hlone⟩ := isCanonical_sum.mp h
  cases hc : m.coef with
  | sum ns => rfl
  | coeff c =>
    rw [eq_singleton_of_exp_eq_zero hinc hexp hm, Bool.eq_false_iff, Ne,
      isLoneConstant_iff] at hlone
    exact absurd ⟨c, by rw [← hc, ← hexp m hm]⟩ hlone

/-! ## Canonical polynomials show what they are -/

/-- What is not written as zero is not zero. -/
theorem exists_coef_ne_zero {p : Poly} (hp : p.isCanonical = true) (h : p.isZero = false) :
    ∃ es, p.coef es ≠ 0 := by
  induction p using induct with
  | coeff c =>
    rw [isZero, beq_eq_false_iff_ne] at h
    exact ⟨[], h⟩
  | sum ms ih =>
    obtain ⟨hnil, hinc, hcoef, -⟩ := isCanonical_sum.mp hp
    obtain ⟨m, hm⟩ := List.exists_mem_of_ne_nil ms hnil
    obtain ⟨es, hes⟩ := ih m hm (hcoef m hm).2 (hcoef m hm).1
    refine ⟨m.exp :: es, ?_⟩
    rw [coef_sum_cons, coefMonos_of_mem hinc hm]
    exact hes

/-- What is not written as a number is no number. -/
theorem exists_coef_ne_zero_of_not_constant {p : Poly} (hp : p.isCanonical = true)
    (h : p.isConstant = false) : ∃ es, es.all (· == 0) = false ∧ p.coef es ≠ 0 := by
  induction p using induct with
  | coeff c => exact absurd h (by simp [isConstant])
  | sum ms ih =>
    obtain ⟨hnil, hinc, hcoef, -⟩ := isCanonical_sum.mp hp
    have hmono : ∃ m ∈ ms, ∃ es, (m.exp :: es).all (· == 0) = false ∧ m.coef.coef es ≠ 0 := by
      by_cases hexp : ∃ m ∈ ms, m.exp ≠ 0
      · obtain ⟨m, hm, he⟩ := hexp
        obtain ⟨es, hes⟩ := exists_coef_ne_zero (hcoef m hm).2 (hcoef m hm).1
        refine ⟨m, hm, es, ?_, hes⟩
        rw [List.all_cons, beq_false_of_ne he, Bool.false_and]
      -- Without the variable of this level the exponents that differ from zero come later.
      · push Not at hexp
        obtain ⟨m, hm⟩ := List.exists_mem_of_ne_nil ms hnil
        have hsum := isConstant_coef_of_exp_eq_zero hp hexp hm
        obtain ⟨es, hall, hes⟩ := ih m hm (hcoef m hm).2 hsum
        refine ⟨m, hm, es, ?_, hes⟩
        rw [List.all_cons, hall, Bool.and_false]
    obtain ⟨m, hm, es, hall, hes⟩ := hmono
    refine ⟨m.exp :: es, hall, ?_⟩
    rw [coef_sum_cons, coefMonos_of_mem hinc hm]
    exact hes

/-- A canonical sum differs from every number. -/
theorem exists_coef_ne_coeff {ms : List (Mono Poly)} (h : (sum ms).isCanonical = true)
    (c : Int64) : ∃ es, (sum ms).coef es ≠ (coeff c).coef es := by
  obtain ⟨es, hall, hne⟩ := exists_coef_ne_zero_of_not_constant h rfl
  have hc : (coeff c).coef es = 0 := by rw [coef, hall]; rfl
  refine ⟨es, ?_⟩
  rw [hc]
  exact hne

/-! ## Uniqueness -/

/-- The monomials of one of two lists with the same coefficients are found in the other one. -/
theorem exists_mem_coef_eq {ms ns : List (Mono Poly)} (hms : (sum ms).isCanonical = true)
    (hns : (sum ns).isCanonical = true) (h : ∀ e es, coefMonos ms e es = coefMonos ns e es)
    {m : Mono Poly} (hm : m ∈ ms) :
    ∃ n ∈ ns, m.exp = n.exp ∧ ∀ es, m.coef.coef es = n.coef.coef es := by
  obtain ⟨-, hinc, hcoef, -⟩ := isCanonical_sum.mp hms
  obtain ⟨-, hinc', -, -⟩ := isCanonical_sum.mp hns
  -- The coefficient of `m` is not zero, so something in `ns` must have its exponent.
  have hn : ∃ n ∈ ns, m.exp = n.exp := by
    obtain ⟨es, hes⟩ := exists_coef_ne_zero (hcoef m hm).2 (hcoef m hm).1
    by_contra hno
    push Not at hno
    rw [← coefMonos_of_mem hinc hm, h] at hes
    exact hes (coefMonos_eq_zero (fun n hn => (hno n hn).symm) es)
  obtain ⟨n, hn, he⟩ := hn
  refine ⟨n, hn, he, fun es => ?_⟩
  rw [← coefMonos_of_mem hinc hm, h, he, coefMonos_of_mem hinc' hn]

theorem eq_of_mem_iff {ms ns : List (Mono Poly)} (hms : (sum ms).isCanonical = true)
    (hns : (sum ns).isCanonical = true) (h : ∀ m, m ∈ ms ↔ m ∈ ns) : ms = ns := by
  have hinc := (Mono.increasing_iff_pairwise ms).mp (isCanonical_sum.mp hms).2.1
  have hinc' := (Mono.increasing_iff_pairwise ns).mp (isCanonical_sum.mp hns).2.1
  have hirrefl : Std.Irrefl fun m n : Mono Poly => m.exp < n.exp :=
    ⟨fun m => UInt32.lt_irrefl m.exp⟩
  have hantisymm : Std.Antisymm fun m n : Mono Poly => m.exp < n.exp :=
    ⟨fun _ _ hmn hnm => absurd (UInt32.lt_trans hmn hnm) (UInt32.lt_irrefl _)⟩
  exact hinc.eq_of_mem_iff hinc' h

/-- Canonical polynomials with the same coefficients are the same tree. -/
theorem eq_of_coef_eq {p q : Poly} (hp : p.isCanonical = true) (hq : q.isCanonical = true)
    (h : ∀ es, p.coef es = q.coef es) : p = q := by
  induction p using induct generalizing q with
  | coeff a =>
    cases q with
    | coeff b => exact congrArg coeff (h [])
    | sum ns =>
      obtain ⟨es, hne⟩ := exists_coef_ne_coeff hq a
      exact absurd (h es).symm hne
  | sum ms ih =>
    cases q with
    | coeff b =>
      obtain ⟨es, hne⟩ := exists_coef_ne_coeff hp b
      exact absurd (h es) hne
    -- Each monomial of one sum has a partner in the other, with a coefficient that is the same
    -- tree by induction.
    | sum ns =>
      have hcoef : ∀ e es, coefMonos ms e es = coefMonos ns e es := fun e es => h (e :: es)
      refine congrArg sum (eq_of_mem_iff hp hq fun k => ⟨fun hk => ?_, fun hk => ?_⟩)
      · obtain ⟨n, hn, he, hc⟩ := exists_mem_coef_eq hp hq hcoef hk
        have hkn := ih k hk (isCanonical_coef hp k hk) (isCanonical_coef hq n hn) hc
        rwa [Mono.ext hkn he]
      · obtain ⟨m, hm, he, hc⟩ := exists_mem_coef_eq hq hp (fun e es => (hcoef e es).symm) hk
        have hmk := ih m hm (isCanonical_coef hp m hm) (isCanonical_coef hq k hk) fun es =>
          (hc es).symm
        rwa [Mono.ext hmk.symm he]

theorem eq_of_expand_eq {p q : Poly} (hp : p.isCanonical = true) (hq : q.isCanonical = true)
    (h : p.expand = q.expand) : p = q := by
  refine eq_of_coef_eq hp hq fun es => ?_
  rw [← coeff_expand, ← coeff_expand, h]

/-- Zero is written as the number zero and in no other way. -/
theorem isZero_iff_eq_zero {p : Poly} (hp : p.isCanonical = true) :
    p.isZero = true ↔ p = zero := by
  have hzero : zero.expand = 0 := map_zero Expansion.const
  constructor
  · intro h
    apply eq_of_expand_eq hp rfl
    rw [expand_eq_zero_of_isZero h, hzero]
  · rintro rfl
    rfl

theorem expand_eq_iff {p q : Poly} : p.expand = q.expand ↔ ∀ e, p.coefAt e = q.coefAt e := by
  rw [← AddMonoidAlgebra.coeff_inj, Finsupp.ext_iff]
  exact forall_congr' fun e => by rw [coeff_expand_eq_coefAt, coeff_expand_eq_coefAt]

theorem normalize_eq_normalize_iff {p q : Poly} :
    p.normalize = q.normalize ↔ p.expand = q.expand := by
  constructor
  · intro h
    rw [← expand_normalize p, h, expand_normalize]
  · intro h
    refine eq_of_expand_eq (isCanonical_normalize p) (isCanonical_normalize q) ?_
    rw [expand_normalize, expand_normalize, h]

theorem normalize_eq_self {p : Poly} (hp : p.isCanonical = true) : p.normalize = p :=
  eq_of_expand_eq (isCanonical_normalize p) hp (expand_normalize p)

/-! ## Polynomials with given monomials -/

theorem expand_ofMonos (ms : List (Mono Poly)) :
    (ofMonos ms).expand = (ms.map Mono.expand).sum := by
  rw [ofMonos, expand_normalize, expand_sum]

/-- Where all coefficients are canonical, bringing them into canonical form first does nothing. -/
theorem ofMonos_eq_ofCanonicalMonos {ms : List (Mono Poly)}
    (h : ∀ m ∈ ms, m.coef.isCanonical = true) : ofMonos ms = ofCanonicalMonos ms := by
  have hself : normalizeMonos ms = ms := by
    rw [normalizeMonos_eq_map]
    refine (List.map_congr_left fun m hm => ?_).trans (List.map_id ms)
    rw [normalize_eq_self (h m hm), id]
  rw [ofMonos, normalize, hself]

theorem ofMonos_normalizeMonos (ms : List (Mono Poly)) :
    ofMonos (normalizeMonos ms) = normalize (.sum ms) := by
  rw [normalize, ofMonos_eq_ofCanonicalMonos]
  rw [normalizeMonos_eq_map]
  exact List.forall_mem_map.mpr fun m _ => isCanonical_normalize m.coef

/-- Two lists of monomials add up together to the sum of what each adds up to. -/
theorem ofMonos_append (ms ns : List (Mono Poly)) :
    ofMonos (ms ++ ns) = (ofMonos ms).add (ofMonos ns) := by
  refine eq_of_expand_eq (isCanonical_normalize _)
    (isCanonical_add (isCanonical_normalize _) (isCanonical_normalize _)) ?_
  rw [expand_add, expand_ofMonos, expand_ofMonos, expand_ofMonos, List.map_append, List.sum_append]

theorem ofMonos_perm {ms ns : List (Mono Poly)} (h : ms.Perm ns) : ofMonos ms = ofMonos ns := by
  rw [ofMonos, ofMonos, normalize_eq_normalize_iff, expand_sum, expand_sum]
  exact (h.map Mono.expand).sum_eq

/-! ## The normal form -/

/-- Canonical form is a normal form. It exists for every tree, has the coefficients of the tree, and
    is the same for two trees exactly if their coefficients are. So a canonical polynomial is its
    own, and that of a list of monomials does not depend on their order. -/
theorem normalForm_normalize (p : Poly) :
    p.normalize.isCanonical = true ∧ (∀ e, p.normalize.coefAt e = p.coefAt e) ∧
      (∀ q : Poly, p.normalize = q.normalize ↔ ∀ e, p.coefAt e = q.coefAt e) ∧
      (p.isCanonical = true → p.normalize = p) ∧
      ∀ ms ns : List (Mono Poly), ms.Perm ns → ofMonos ms = ofMonos ns :=
  ⟨isCanonical_normalize p, expand_eq_iff.mp (expand_normalize p),
    fun _ => normalize_eq_normalize_iff.trans expand_eq_iff, normalize_eq_self,
    fun _ _ => ofMonos_perm⟩

theorem normalForm_normalize_overflowing :
    overflowing.isCanonical = true ∧ overflowing.normalize = overflowing ∧
      [Mono.mk overflowing 1, Mono.mk (var 0) 0].Perm [Mono.mk (var 0) 0, Mono.mk overflowing 1] ∧
      ofMonos [⟨overflowing, 1⟩, ⟨var 0, 0⟩] = ofMonos [⟨var 0, 0⟩, ⟨overflowing, 1⟩] :=
  ⟨by decide, (normalForm_normalize overflowing).2.2.2.1 (by decide), List.Perm.swap _ _ _,
    (normalForm_normalize overflowing).2.2.2.2 _ _ (List.Perm.swap _ _ _)⟩

end Poly

end PolyCalc
