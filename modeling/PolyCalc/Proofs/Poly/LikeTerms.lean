import Mathlib.Tactic.SplitIfs
import PolyCalc.Proofs.Poly.Expansion

set_option autoImplicit false

/-! # Collecting like terms

Sorting a list of monomials, adding up neighbours of one exponent and merging two lists all work
with an addition of coefficients that they are given. Four things are proved of each step:

- a property of coefficients that the addition keeps holds of the coefficients of the result;
- an addition that agrees with it on such coefficients gives the same result;
- a weight of monomials that is additive in the coefficient has the same sum before and after;
- sorting and adding up ends with strictly increasing exponents, whatever the list was like.

For `Poly.canonicalWith`, which ends with dropping the zeros, this gives `exists_canonicalWith`
(what the result looks like) and `expand_canonicalWith` (what it means). -/

namespace PolyCalc

namespace Mono

section

variable {α M : Type} [AddCommMonoid M] {P : α → Prop} {add add' : α → α → α} {w : Mono α → M}

/-- Sums of coefficients with the property `P` have it too. -/
def Closed (P : α → Prop) (add : α → α → α) : Prop :=
  ∀ a b, P a → P b → P (add a b)

/-- Coefficients with the property `P` have the same sum by either addition. -/
def Agree (P : α → Prop) (add add' : α → α → α) : Prop :=
  ∀ a b, P a → P b → add a b = add' a b

/-- On coefficients with the property `P`, the weight of a monomial is additive. -/
def Additive (P : α → Prop) (add : α → α → α) (w : Mono α → M) : Prop :=
  ∀ a b e, P a → P b → w ⟨add a b, e⟩ = w ⟨a, e⟩ + w ⟨b, e⟩

/-! ## Sorting -/

theorem insertByExp_perm (m : Mono α) (ms : List (Mono α)) :
    (insertByExp m ms).Perm (m :: ms) := by
  induction ms with
  | nil => exact List.Perm.refl _
  | cons n ns ih =>
    rw [insertByExp]
    split_ifs with h
    · exact List.Perm.refl _
    · exact (ih.cons n).trans (List.Perm.swap m n ns)

theorem sortByExp_perm (ms : List (Mono α)) : (sortByExp ms).Perm ms := by
  induction ms with
  | nil => exact List.Perm.refl _
  | cons m ms ih => exact (insertByExp_perm m (sortByExp ms)).trans (ih.cons m)

theorem forall_sortByExp {ms : List (Mono α)} (h : ∀ m ∈ ms, P m.coef) :
    ∀ m ∈ sortByExp ms, P m.coef :=
  fun m hm => h m ((sortByExp_perm ms).mem_iff.mp hm)

theorem insertByExp_pairwise (m : Mono α) {ms : List (Mono α)}
    (h : ms.Pairwise (·.exp ≤ ·.exp)) : (insertByExp m ms).Pairwise (·.exp ≤ ·.exp) := by
  induction ms with
  | nil => exact List.pairwise_singleton _ m
  | cons n ns ih =>
    obtain ⟨hn, hns⟩ := List.pairwise_cons.mp h
    rw [insertByExp]
    split_ifs with hmn
    · refine List.pairwise_cons.mpr ⟨fun k hk => ?_, h⟩
      rcases List.mem_cons.mp hk with rfl | hk
      · exact hmn
      · exact UInt32.le_trans hmn (hn k hk)
    · refine List.pairwise_cons.mpr ⟨fun k hk => ?_, ih hns⟩
      rcases List.mem_cons.mp ((insertByExp_perm m ns).mem_iff.mp hk) with rfl | hk
      · exact UInt32.le_of_lt (UInt32.not_le.mp hmn)
      · exact hn k hk

theorem sortByExp_pairwise (ms : List (Mono α)) : (sortByExp ms).Pairwise (·.exp ≤ ·.exp) := by
  induction ms with
  | nil => exact List.Pairwise.nil
  | cons m ms ih => exact insertByExp_pairwise m ih

/-! ## Adding up neighbours -/

theorem forall_addRun (hadd : Closed P add) {m : Mono α} {ms : List (Mono α)}
    (h : ∀ n ∈ m :: ms, P n.coef) : ∀ n ∈ addRun add m ms, P n.coef := by
  induction ms generalizing m with
  | nil => exact h
  | cons n ns ih =>
    obtain ⟨hm, hrest⟩ := List.forall_mem_cons.mp h
    obtain ⟨hn, hns⟩ := List.forall_mem_cons.mp hrest
    rw [addRun]
    split_ifs with he
    · exact ih (List.forall_mem_cons.mpr ⟨hadd _ _ hm hn, hns⟩)
    · exact List.forall_mem_cons.mpr ⟨hm, ih hrest⟩

theorem forall_addRuns (hadd : Closed P add) {ms : List (Mono α)} (h : ∀ n ∈ ms, P n.coef) :
    ∀ n ∈ addRuns add ms, P n.coef := by
  cases ms with
  | nil => exact h
  | cons m ms => exact forall_addRun hadd h

theorem addRun_congr (hadd : Closed P add) (hagree : Agree P add add') {m : Mono α}
    {ms : List (Mono α)} (h : ∀ n ∈ m :: ms, P n.coef) : addRun add m ms = addRun add' m ms := by
  induction ms generalizing m with
  | nil => rfl
  | cons n ns ih =>
    obtain ⟨hm, hrest⟩ := List.forall_mem_cons.mp h
    obtain ⟨hn, hns⟩ := List.forall_mem_cons.mp hrest
    rw [addRun, addRun, ← hagree _ _ hm hn, ih hrest,
      ih (List.forall_mem_cons.mpr ⟨hadd _ _ hm hn, hns⟩)]

theorem addRuns_congr (hadd : Closed P add) (hagree : Agree P add add') {ms : List (Mono α)}
    (h : ∀ n ∈ ms, P n.coef) : addRuns add ms = addRuns add' ms := by
  cases ms with
  | nil => rfl
  | cons m ms => exact addRun_congr hadd hagree h

theorem sum_addRun (hadd : Closed P add) (hw : Additive P add w) {m : Mono α}
    {ms : List (Mono α)} (h : ∀ n ∈ m :: ms, P n.coef) :
    ((addRun add m ms).map w).sum = w m + (ms.map w).sum := by
  induction ms generalizing m with
  | nil => rfl
  | cons n ns ih =>
    obtain ⟨hm, hrest⟩ := List.forall_mem_cons.mp h
    obtain ⟨hn, hns⟩ := List.forall_mem_cons.mp hrest
    rw [addRun, List.map_cons, List.sum_cons]
    split_ifs with he
    · have hn' : n = ⟨n.coef, m.exp⟩ := by rw [he]
      rw [ih (List.forall_mem_cons.mpr ⟨hadd _ _ hm hn, hns⟩), hw _ _ _ hm hn, ← hn', add_assoc]
    · rw [List.map_cons, List.sum_cons, ih hrest]

theorem sum_addRuns (hadd : Closed P add) (hw : Additive P add w) {ms : List (Mono α)}
    (h : ∀ n ∈ ms, P n.coef) : ((addRuns add ms).map w).sum = (ms.map w).sum := by
  cases ms with
  | nil => rfl
  | cons m ms => exact sum_addRun hadd hw h

/-- Neighbours of one exponent are all that a sorted list needs to have added up. -/
theorem addRun_pairwise {m : Mono α} {ms : List (Mono α)}
    (h : (m :: ms).Pairwise (·.exp ≤ ·.exp)) :
    (addRun add m ms).Pairwise (·.exp < ·.exp) ∧ ∀ n ∈ addRun add m ms, m.exp ≤ n.exp := by
  induction ms generalizing m with
  | nil =>
    refine ⟨List.pairwise_singleton _ m, fun n hn => ?_⟩
    rw [List.mem_singleton.mp hn]
    exact UInt32.le_refl _
  | cons n ns ih =>
    obtain ⟨hm, hrest⟩ := List.pairwise_cons.mp h
    obtain ⟨hn, hns⟩ := List.forall_mem_cons.mp hm
    rw [addRun]
    split_ifs with he
    -- The sum takes the place of `m`, and its exponent is still not above those that follow.
    · exact ih (List.pairwise_cons.mpr ⟨hns, (List.pairwise_cons.mp hrest).2⟩)
    · obtain ⟨hlt, hle⟩ := ih hrest
      have hmn : m.exp < n.exp := UInt32.lt_of_le_of_ne hn he
      refine ⟨List.pairwise_cons.mpr ⟨fun k hk => UInt32.lt_of_lt_of_le hmn (hle k hk), hlt⟩, ?_⟩
      exact List.forall_mem_cons.mpr
        ⟨UInt32.le_refl _, fun k hk => UInt32.le_trans hn (hle k hk)⟩

theorem addRuns_pairwise {ms : List (Mono α)} (h : ms.Pairwise (·.exp ≤ ·.exp)) :
    (addRuns add ms).Pairwise (·.exp < ·.exp) := by
  cases ms with
  | nil => exact List.Pairwise.nil
  | cons m ms => exact (addRun_pairwise h).1

theorem increasing_iff_pairwise (ms : List (Mono α)) :
    increasing ms = true ↔ ms.Pairwise (·.exp < ·.exp) := by
  induction ms with
  | nil => simp [increasing]
  | cons m ms ih =>
    cases ms with
    | nil => simp [increasing]
    | cons n ns =>
      rw [increasing, Bool.and_eq_true, decide_eq_true_eq, ih, List.pairwise_cons (a := m)]
      refine and_congr_left fun h => ⟨fun hmn => ?_, fun hm => hm n List.mem_cons_self⟩
      exact List.forall_mem_cons.mpr
        ⟨hmn, fun k hk => UInt32.lt_trans hmn ((List.pairwise_cons.mp h).1 k hk)⟩

/-! ## Merging -/

theorem forall_mergeHead (hadd : Closed P add) {m : Mono α} {ns : List (Mono α)}
    {rest : List (Mono α) → List (Mono α)} (hm : P m.coef) (hns : ∀ n ∈ ns, P n.coef)
    (hrest : ∀ ns, (∀ n ∈ ns, P n.coef) → ∀ n ∈ rest ns, P n.coef) :
    ∀ n ∈ mergeHead add m rest ns, P n.coef := by
  induction ns with
  | nil => exact List.forall_mem_cons.mpr ⟨hm, hrest [] hns⟩
  | cons n ns ih =>
    obtain ⟨hn, hns'⟩ := List.forall_mem_cons.mp hns
    rw [mergeHead]
    split_ifs with he hlt
    · exact List.forall_mem_cons.mpr ⟨hadd _ _ hm hn, hrest ns hns'⟩
    · exact List.forall_mem_cons.mpr ⟨hm, hrest _ hns⟩
    · exact List.forall_mem_cons.mpr ⟨hn, ih hns'⟩

theorem forall_merge (hadd : Closed P add) {ms ns : List (Mono α)} (hms : ∀ m ∈ ms, P m.coef)
    (hns : ∀ n ∈ ns, P n.coef) : ∀ n ∈ merge add ms ns, P n.coef := by
  induction ms generalizing ns with
  | nil => exact hns
  | cons m ms ih =>
    obtain ⟨hm, hms'⟩ := List.forall_mem_cons.mp hms
    exact forall_mergeHead hadd hm hns fun ns hns => ih hms' hns

theorem mergeHead_congr (hagree : Agree P add add') {m : Mono α} {ns : List (Mono α)}
    {rest rest' : List (Mono α) → List (Mono α)} (hm : P m.coef) (hns : ∀ n ∈ ns, P n.coef)
    (hrest : ∀ ns, (∀ n ∈ ns, P n.coef) → rest ns = rest' ns) :
    mergeHead add m rest ns = mergeHead add' m rest' ns := by
  induction ns with
  | nil => rw [mergeHead, mergeHead, hrest [] hns]
  | cons n ns ih =>
    obtain ⟨hn, hns'⟩ := List.forall_mem_cons.mp hns
    rw [mergeHead, mergeHead, hagree _ _ hm hn, hrest ns hns', hrest _ hns, ih hns']

/-- Merging adds coefficients of the two lists only, never a sum of them. -/
theorem merge_congr (hagree : Agree P add add') {ms ns : List (Mono α)}
    (hms : ∀ m ∈ ms, P m.coef) (hns : ∀ n ∈ ns, P n.coef) :
    merge add ms ns = merge add' ms ns := by
  induction ms generalizing ns with
  | nil => rfl
  | cons m ms ih =>
    obtain ⟨hm, hms'⟩ := List.forall_mem_cons.mp hms
    exact mergeHead_congr hagree hm hns fun ns hns => ih hms' hns

theorem sum_mergeHead (hw : Additive P add w) {m : Mono α} {ns : List (Mono α)}
    {rest : List (Mono α) → List (Mono α)} {s : M} (hm : P m.coef) (hns : ∀ n ∈ ns, P n.coef)
    (hrest : ∀ ns, (∀ n ∈ ns, P n.coef) → ((rest ns).map w).sum = s + (ns.map w).sum) :
    ((mergeHead add m rest ns).map w).sum = w m + s + (ns.map w).sum := by
  induction ns with
  | nil => rw [mergeHead, List.map_cons, List.sum_cons, hrest [] hns, add_assoc]
  | cons n ns ih =>
    obtain ⟨hn, hns'⟩ := List.forall_mem_cons.mp hns
    rw [mergeHead]
    split_ifs with he hlt
    · have hn' : n = ⟨n.coef, m.exp⟩ := by rw [he]
      rw [List.map_cons, List.sum_cons, List.map_cons, List.sum_cons, hrest ns hns',
        hw _ _ _ hm hn, ← hn', add_add_add_comm]
    · rw [List.map_cons, List.sum_cons, hrest _ hns, add_assoc]
    · rw [List.map_cons, List.sum_cons, List.map_cons, List.sum_cons, ih hns', add_left_comm]

/-- Merging adds up whatever the lists are like: sorted or not, with repeated exponents or
    without. -/
theorem sum_merge (hw : Additive P add w) {ms ns : List (Mono α)} (hms : ∀ m ∈ ms, P m.coef)
    (hns : ∀ n ∈ ns, P n.coef) :
    ((merge add ms ns).map w).sum = (ms.map w).sum + (ns.map w).sum := by
  induction ms generalizing ns with
  | nil => rw [merge, List.map_nil, List.sum_nil, zero_add]
  | cons m ms ih =>
    obtain ⟨hm, hms'⟩ := List.forall_mem_cons.mp hms
    exact sum_mergeHead hw hm hns fun ns hns => ih hms' hns

end

end Mono

namespace Poly

open Wrapping

variable {P : Poly → Prop} {add add' : Poly → Poly → Poly}

/-! ## Dropping zeros and lone constants -/

theorem expand_eq_zero_of_isZero {p : Poly} (h : p.isZero = true) : p.expand = 0 := by
  induction p using induct with
  | coeff c => rw [expand_coeff, eq_of_beq h, map_zero]
  | sum ms ih =>
    rw [expand_sum]
    refine List.sum_eq_zero fun x hx => ?_
    obtain ⟨m, hm, rfl⟩ := List.mem_map.mp hx
    rw [Mono.expand, ih m hm (isZero_sum.mp h m hm), map_zero, mul_zero]

theorem sum_filter_isZero (ms : List (Mono Poly)) :
    ((ms.filter (fun m => !m.coef.isZero)).map Mono.expand).sum = (ms.map Mono.expand).sum := by
  induction ms with
  | nil => rfl
  | cons m ms ih =>
    rw [List.filter_cons, List.map_cons, List.sum_cons]
    split_ifs with h
    · rw [List.map_cons, List.sum_cons, ih]
    · rw [Bool.not_eq_true, Bool.not_eq_false'] at h
      rw [ih, Mono.expand, expand_eq_zero_of_isZero h, map_zero, mul_zero, zero_add]

theorem isLoneConstant_iff (ms : List (Mono Poly)) :
    isLoneConstant ms = true ↔ ∃ c, ms = [⟨.coeff c, 0⟩] := by
  unfold isLoneConstant
  split
  · next c e =>
    constructor
    · intro h
      exact ⟨c, by rw [eq_of_beq h]⟩
    · rintro ⟨c', h⟩
      cases h
      rfl
  · next h =>
    refine ⟨fun hf => absurd hf Bool.false_ne_true, ?_⟩
    rintro ⟨c, rfl⟩
    exact absurd rfl (h c 0)

/-- What becomes of a reduced list: zero, a number, or the sum as it stands. -/
theorem ofReduced_cases (ms : List (Mono Poly)) :
    (ms = [] ∧ ofReduced ms = zero) ∨ (∃ c, ms = [⟨.coeff c, 0⟩] ∧ ofReduced ms = .coeff c) ∨
      (ms ≠ [] ∧ isLoneConstant ms = false ∧ ofReduced ms = .sum ms) := by
  unfold ofReduced
  split
  · exact Or.inl ⟨rfl, rfl⟩
  · next c e =>
    split_ifs with he
    · exact Or.inr (Or.inl ⟨c, by rw [he], rfl⟩)
    · exact Or.inr (Or.inr ⟨List.cons_ne_nil _ _, beq_false_of_ne he, rfl⟩)
  · next hnil hlone =>
    refine Or.inr (Or.inr ⟨hnil, ?_, rfl⟩)
    rw [Bool.eq_false_iff, Ne, isLoneConstant_iff]
    rintro ⟨c, hc⟩
    exact hlone c 0 hc

theorem expand_ofReduced (ms : List (Mono Poly)) :
    (ofReduced ms).expand = (ms.map Mono.expand).sum := by
  rcases ofReduced_cases ms with ⟨rfl, h⟩ | ⟨c, rfl, h⟩ | ⟨-, -, h⟩
  · rw [h]
    exact map_zero Expansion.const
  · rw [h, List.map_singleton, List.sum_singleton, Mono.expand_constant, expand_coeff]
  · rw [h, expand_sum]

/-! ## All steps together -/

/-- The monomials that are left in the end: their exponents increase strictly, no coefficient is
    zero, and what the addition keeps holds of every coefficient. -/
theorem exists_canonicalWith (hadd : Mono.Closed P add) {ms : List (Mono Poly)}
    (h : ∀ m ∈ ms, P m.coef) :
    ∃ rs, canonicalWith add ms = ofReduced rs ∧ rs.Pairwise (·.exp < ·.exp) ∧
      ∀ m ∈ rs, P m.coef ∧ m.coef.isZero = false := by
  refine ⟨_, rfl, (Mono.addRuns_pairwise (Mono.sortByExp_pairwise ms)).filter _, ?_⟩
  intro m hm
  obtain ⟨hmem, hzero⟩ := List.mem_filter.mp hm
  rw [Bool.not_eq_true'] at hzero
  exact ⟨Mono.forall_addRuns hadd (Mono.forall_sortByExp h) m hmem, hzero⟩

theorem canonicalWith_congr (hadd : Mono.Closed P add) (hagree : Mono.Agree P add add')
    {ms : List (Mono Poly)} (h : ∀ m ∈ ms, P m.coef) :
    canonicalWith add ms = canonicalWith add' ms := by
  rw [canonicalWith, canonicalWith, Mono.addRuns_congr hadd hagree (Mono.forall_sortByExp h)]

/-- An addition that is right on coefficients is right on the monomials that carry them. -/
theorem additive_expand (hexp : ∀ p q, P p → P q → (add p q).expand = p.expand + q.expand) :
    Mono.Additive P add Mono.expand := by
  intro p q e hp hq
  rw [Mono.expand_mk, Mono.expand_mk, Mono.expand_mk, hexp p q hp hq, map_add, mul_add]

/-- Bringing monomials into canonical form does not change what they add up to. -/
theorem expand_canonicalWith (hadd : Mono.Closed P add)
    (hexp : ∀ p q, P p → P q → (add p q).expand = p.expand + q.expand)
    {ms : List (Mono Poly)} (h : ∀ m ∈ ms, P m.coef) :
    (canonicalWith add ms).expand = (ms.map Mono.expand).sum := by
  rw [canonicalWith, expand_ofReduced, sum_filter_isZero,
    Mono.sum_addRuns hadd (additive_expand hexp) (Mono.forall_sortByExp h)]
  exact ((Mono.sortByExp_perm ms).map Mono.expand).sum_eq

end Poly

end PolyCalc
