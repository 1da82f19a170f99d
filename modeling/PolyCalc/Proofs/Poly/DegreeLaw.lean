import Mathlib.Algebra.Field.ZMod
import Mathlib.Algebra.MonoidAlgebra.NoZeroDivisors
import PolyCalc.Proofs.Poly.Degree

set_option autoImplicit false

/-! # Degrees of products

The terms of a product are sums of a term of each factor, so no degree of a product is above the sum
of the degrees. It may be below: 64-bit integers have divisors of zero, and of the terms of greatest
degree nothing may be left, as in `(2 · x₀) · (2⁶³ · x₀) = 0`.

Odd numbers are no divisors of zero. Modulo 2 the coefficients are a field, and of two sets of terms
there are always two whose sum is the sum of no other two (`Exponents.exists_uniqueAdd`). Among the
odd terms of greatest degree this gives a term of the product that nothing cancels
(`exists_odd_term_mul`), so then the degrees add up. Both degrees are weights of terms
(`IsWeight`), and the law is proved for all weights at once (`degreeLaw_of_isWeight`). -/

namespace PolyCalc

open Wrapping

/-! ## Parity -/

namespace Wrapping

theorem intCast_bmod (i : ℤ) : ((i.bmod (2 ^ 64) : ℤ) : ZMod 2) = i := by
  have hdvd : ((2 : ℕ) : ℤ) ∣ ((2 ^ 64 : ℕ) : ℤ) := by decide
  have hmod : i.bmod (2 ^ 64) ≡ i [ZMOD ((2 ^ 64 : ℕ) : ℤ)] := Int.bmod_emod
  exact (ZMod.intCast_eq_intCast_iff _ _ 2).mpr (hmod.of_dvd hdvd)

/-- A number modulo 2. Overflow drops a multiple of `2 ^ 64`, which is even. -/
def parity : Int64 →+* ZMod 2 where
  toFun x := (x.toInt : ZMod 2)
  map_one' := rfl
  map_zero' := rfl
  map_add' x y := by rw [Int64.toInt_add, intCast_bmod, Int.cast_add]
  map_mul' x y := by rw [Int64.toInt_mul, intCast_bmod, Int.cast_mul]

theorem parity_eq_one_iff {x : Int64} : parity x = 1 ↔ Odd x.toInt := ZMod.intCast_eq_one_iff_odd

theorem parity_ne_zero_iff {x : Int64} : parity x ≠ 0 ↔ Odd x.toInt := by
  rw [← Int.not_even_iff_odd]
  exact not_congr ZMod.intCast_eq_zero_iff_even

theorem ne_zero_of_odd {x : Int64} (h : Odd x.toInt) : x ≠ 0 := by
  rintro rfl
  exact absurd h (by decide)

end Wrapping

/-! ## Sums of exponents that do not wrap -/

namespace Exponents

variable {a b : Exponents}

/-- No exponent wraps when the two sequences are added. -/
def NoOverflow (a b : Exponents) : Prop := ∀ i, (a i).toNat + (b i).toNat < 2 ^ 32

/-- The exponents as natural numbers. -/
def naturals (e : Exponents) : ℕ → ℕ := fun i => (e i).toNat

theorem naturals_injective : Function.Injective naturals := by
  intro a b h
  refine Finsupp.ext fun i => ?_
  exact UInt32.toNat_inj.mp (congrFun h i)

theorem naturals_add (h : NoOverflow a b) : naturals (a + b) = naturals a + naturals b := by
  funext i
  show ((a + b) i).toNat = _
  rw [Finsupp.add_apply, UInt32.toNat_add, Nat.mod_eq_of_lt (h i)]
  rfl

theorem noOverflow_of_degree (h : degree a + degree b < 2 ^ 32) : NoOverflow a b := by
  intro i
  have ha := a.toNat_le_degree i
  have hb := b.toNat_le_degree i
  omega

theorem degree_add (h : NoOverflow a b) : degree (a + b) = degree a + degree b := by
  have ha : a.support ⊆ a.support ∪ b.support := Finset.subset_union_left
  have hb : b.support ⊆ a.support ∪ b.support := Finset.subset_union_right
  rw [degree_eq_sum Finsupp.support_add, degree_eq_sum ha, degree_eq_sum hb,
    ← Finset.sum_add_distrib]
  exact Finset.sum_congr rfl fun i _ => congrFun (naturals_add h) i

/-- Of two sets of exponents whose sums do not wrap, two have a sum that no other two have: as
    sequences of natural numbers, the exponents can be ordered. -/
theorem exists_uniqueAdd {A B : Finset Exponents} (hA : A.Nonempty) (hB : B.Nonempty)
    (h : ∀ a ∈ A, ∀ b ∈ B, NoOverflow a b) : ∃ a ∈ A, ∃ b ∈ B, UniqueAdd A B a b := by
  classical
  obtain ⟨s, hs, t, ht, hunique⟩ :=
    UniqueSums.uniqueAdd_of_nonempty (hA.image naturals) (hB.image naturals)
  obtain ⟨a, ha, rfl⟩ := Finset.mem_image.mp hs
  obtain ⟨b, hb, rfl⟩ := Finset.mem_image.mp ht
  refine ⟨a, ha, b, hb, ?_⟩
  intro x y hx hy hxy
  have hsum : naturals x + naturals y = naturals a + naturals b := by
    rw [← naturals_add (h x hx y hy), ← naturals_add (h a ha b hb), hxy]
  obtain ⟨hxa, hyb⟩ :=
    hunique (Finset.mem_image_of_mem _ hx) (Finset.mem_image_of_mem _ hy) hsum
  exact ⟨naturals_injective hxa, naturals_injective hyb⟩

end Exponents

/-! ## Weights -/

/-- A measure of terms that adds up in products. Exponents that wrap can only make a term lighter,
    and nothing is heavier than all exponents together. -/
structure IsWeight (w : Exponents → ℕ) : Prop where
  add_le (a b : Exponents) : w (a + b) ≤ w a + w b
  add_of_noOverflow {a b : Exponents} : Exponents.NoOverflow a b → w (a + b) = w a + w b
  le_degree (e : Exponents) : w e ≤ e.degree

theorem isWeight_degree : IsWeight Exponents.degree where
  add_le := Exponents.degree_add_le
  add_of_noOverflow := Exponents.degree_add
  le_degree _ := le_rfl

theorem isWeight_apply (k : ℕ) : IsWeight fun e => (e k).toNat where
  add_le a b := by
    rw [Finsupp.add_apply, UInt32.toNat_add]
    exact Nat.mod_le _ _
  add_of_noOverflow h := congrFun (Exponents.naturals_add h) k
  le_degree e := e.toNat_le_degree k

variable {w : Exponents → ℕ}

/-- A sum of heaviest exponents is none of others, if it is none of other heaviest ones. -/
theorem IsWeight.uniqueAdd (hw : IsWeight w) {A B : Finset Exponents} {a b : Exponents}
    (ha : a ∈ A) (hb : b ∈ B) (hA : ∀ x ∈ A, w x ≤ w a) (hB : ∀ y ∈ B, w y ≤ w b)
    (h : ∀ x ∈ A, ∀ y ∈ B, Exponents.NoOverflow x y)
    (htop : UniqueAdd {x ∈ A | w x = w a} {y ∈ B | w y = w b} a b) : UniqueAdd A B a b := by
  intro x y hx hy hxy
  have hsum : w x + w y = w a + w b := by
    rw [← hw.add_of_noOverflow (h x hx y hy), ← hw.add_of_noOverflow (h a ha b hb), hxy]
  have hxa := hA x hx
  have hyb := hB y hy
  refine htop ?_ ?_ hxy
  · exact Finset.mem_filter.mpr ⟨hx, by omega⟩
  · exact Finset.mem_filter.mpr ⟨hy, by omega⟩

namespace Poly

variable {p q : Poly} {deg : Poly → Int32}

/-! ## Terms of products -/

theorem exists_of_mem_terms_mul {e : Exponents} (h : e ∈ (p.mul q).terms) :
    ∃ a ∈ p.terms, ∃ b ∈ q.terms, a + b = e := by
  classical
  rw [terms, expand_mul] at h
  exact Finset.mem_add.mp (AddMonoidAlgebra.support_coeff_mul_subset _ _ h)

theorem weight_mul_le (hw : IsWeight w) {m n : ℕ} (hp : ∀ x ∈ p.terms, w x ≤ m)
    (hq : ∀ y ∈ q.terms, w y ≤ n) : ∀ e ∈ (p.mul q).terms, w e ≤ m + n := by
  intro e he
  obtain ⟨x, hx, y, hy, rfl⟩ := exists_of_mem_terms_mul he
  have hadd := hw.add_le x y
  have hxm := hp x hx
  have hyn := hq y hy
  omega

theorem totalDegree_mul_le (p q : Poly) :
    (p.mul q).totalDegree ≤ p.totalDegree + q.totalDegree := by
  refine Finset.sup_le (weight_mul_le isWeight_degree ?_ ?_)
  · intro x hx
    exact Finset.le_sup hx
  · intro y hy
    exact Finset.le_sup hy

/-- The terms with an odd coefficient: those that are left modulo 2. -/
noncomputable def oddTerms (p : Poly) : Finset Exponents :=
  (AddMonoidAlgebra.mapRingHom Exponents parity p.expand).coeff.support

theorem mem_oddTerms {e : Exponents} : e ∈ p.oddTerms ↔ Odd (p.coefAt e).toInt := by
  rw [oddTerms, Finsupp.mem_support_iff, AddMonoidAlgebra.coeff_mapRingHom, coeff_expand_eq_coefAt,
    parity_ne_zero_iff]

theorem oddTerms_subset : p.oddTerms ⊆ p.terms := by
  intro e he
  exact mem_terms.mpr (ne_zero_of_odd (mem_oddTerms.mp he))

/-- Where the sum of two odd terms is that of no other odd terms, it is an odd term of the
    product. -/
theorem odd_coefAt_mul {a b : Exponents} (ha : a ∈ p.oddTerms) (hb : b ∈ q.oddTerms)
    (h : UniqueAdd p.oddTerms q.oddTerms a b) : Odd ((p.mul q).coefAt (a + b)).toInt := by
  rw [← parity_eq_one_iff, ← coeff_expand_eq_coefAt, ← AddMonoidAlgebra.coeff_mapRingHom,
    expand_mul, map_mul, AddMonoidAlgebra.coeff_mul_add_of_uniqueAdd h,
    AddMonoidAlgebra.coeff_mapRingHom, AddMonoidAlgebra.coeff_mapRingHom, coeff_expand_eq_coefAt,
    coeff_expand_eq_coefAt, parity_eq_one_iff.mpr (mem_oddTerms.mp ha),
    parity_eq_one_iff.mpr (mem_oddTerms.mp hb), mul_one]

/-! ## Heaviest terms with odd coefficients -/

/-- A term with an odd coefficient, such that no term weighs more. -/
structure IsOddTop (w : Exponents → ℕ) (p : Poly) (e : Exponents) : Prop where
  odd : Odd (p.coefAt e).toInt
  top : ∀ e' ∈ p.terms, w e' ≤ w e

theorem IsOddTop.mem_terms {e : Exponents} (h : IsOddTop w p e) : e ∈ p.terms :=
  oddTerms_subset (mem_oddTerms.mpr h.odd)

theorem IsOddTop.mem_filter_oddTerms {e : Exponents} (h : IsOddTop w p e) :
    e ∈ ({x ∈ p.oddTerms | w x = w e} : Finset Exponents) :=
  Finset.mem_filter.mpr ⟨mem_oddTerms.mpr h.odd, rfl⟩

theorem isOddTop_of_paths {es : List UInt32} (hodd : Odd (p.coef es).toInt)
    (htop : ∀ l ∈ p.paths, w l.exps.toFinsupp ≤ w es.toFinsupp) : IsOddTop w p es.toFinsupp := by
  constructor
  · rw [← coeff_expand_eq_coefAt, coeff_expand]
    exact hodd
  · intro e he
    obtain ⟨l, hl, rfl⟩ := exists_path_of_mem_terms he
    exact htop l hl

/-- Heaviest terms with odd coefficients leave a term of their joint weight in the product. -/
theorem exists_odd_term_mul (hw : IsWeight w) {a b : Exponents}
    (h : ∀ x ∈ p.terms, ∀ y ∈ q.terms, Exponents.NoOverflow x y) (ha : IsOddTop w p a)
    (hb : IsOddTop w q b) : ∃ e ∈ (p.mul q).terms, w e = w a + w b := by
  have hodd : ∀ x ∈ p.oddTerms, ∀ y ∈ q.oddTerms, Exponents.NoOverflow x y := by
    intro x hx y hy
    exact h x (oddTerms_subset hx) y (oddTerms_subset hy)
  -- There may be several heaviest ones; two of them have a sum of their own.
  obtain ⟨x, hx, y, hy, hunique⟩ :=
    Exponents.exists_uniqueAdd ⟨a, ha.mem_filter_oddTerms⟩ ⟨b, hb.mem_filter_oddTerms⟩
      fun x hx y hy => hodd x (Finset.mem_filter.mp hx).1 y (Finset.mem_filter.mp hy).1
  obtain ⟨hx, hxa⟩ := Finset.mem_filter.mp hx
  obtain ⟨hy, hyb⟩ := Finset.mem_filter.mp hy
  have hxtop : ∀ x' ∈ p.oddTerms, w x' ≤ w x := by
    intro x' hx'
    rw [hxa]
    exact ha.top x' (oddTerms_subset hx')
  have hytop : ∀ y' ∈ q.oddTerms, w y' ≤ w y := by
    intro y' hy'
    rw [hyb]
    exact hb.top y' (oddTerms_subset hy')
  rw [← hxa, ← hyb] at hunique
  have hmul := odd_coefAt_mul hx hy (hw.uniqueAdd hx hy hxtop hytop hodd hunique)
  refine ⟨x + y, mem_terms.mpr (ne_zero_of_odd hmul), ?_⟩
  rw [hw.add_of_noOverflow (hodd x hx y hy), hxa, hyb]

/-! ## The law -/

theorem noOverflow_of_totalDegree (h : p.totalDegree + q.totalDegree < 2 ^ 32) :
    ∀ x ∈ p.terms, ∀ y ∈ q.terms, Exponents.NoOverflow x y := by
  intro x hx y hy
  have hxle : x.degree ≤ p.totalDegree := Finset.le_sup hx
  have hyle : y.degree ≤ q.totalDegree := Finset.le_sup hy
  exact Exponents.noOverflow_of_degree (by omega)

theorem IsMaxWeight.exists_top {d : Int32} (h : IsMaxWeight w p d) :
    ∃ e ∈ p.terms, d.toInt = w e ∧ ∀ e' ∈ p.terms, w e' ≤ w e := by
  obtain ⟨e, he, hd⟩ := h.attained
  refine ⟨e, he, hd, ?_⟩
  intro e' he'
  have hle := h.bound e' he'
  omega

theorem IsMaxWeight.eq_of_top {d : Int32} (h : IsMaxWeight w p d) {e : Exponents}
    (he : e ∈ p.terms) (htop : ∀ e' ∈ p.terms, w e' ≤ w e) : d.toInt = w e := by
  obtain ⟨e', he', hd, htop'⟩ := h.exists_top
  have hle := htop e' he'
  have hge := htop' e he
  omega

/-- A product of polynomials with odd heaviest terms is not zero. -/
theorem mul_ne_zero_of_isOddTop (hw : IsWeight w) {a b : Exponents}
    (h : ∀ x ∈ p.terms, ∀ y ∈ q.terms, Exponents.NoOverflow x y) (ha : IsOddTop w p a)
    (hb : IsOddTop w q b) : p.mul q ≠ zero := by
  intro hmul
  obtain ⟨e, he, -⟩ := exists_odd_term_mul hw h ha hb
  rw [hmul, mem_terms, zero, coefAt_coeff, ite_self] at he
  exact he rfl

namespace IsMaxWeight

variable {d d' m : Int32}

theorem toInt_add (hw : IsWeight w) (hp : IsMaxWeight w p d) (hq : IsMaxWeight w q d')
    (h : p.totalDegree + q.totalDegree ≤ 2147483647) : (d + d').toInt = d.toInt + d'.toInt := by
  obtain ⟨a, ha, hda⟩ := hp.attained
  obtain ⟨b, hb, hdb⟩ := hq.attained
  have hwa : w a ≤ p.totalDegree := (hw.le_degree a).trans (Finset.le_sup ha)
  have hwb : w b ≤ q.totalDegree := (hw.le_degree b).trans (Finset.le_sup hb)
  exact toInt_add_of_le (by omega) (by omega) (by omega)

theorem mul_le (hw : IsWeight w) (hp : IsMaxWeight w p d) (hq : IsMaxWeight w q d')
    (hmul : IsMaxWeight w (p.mul q) m) : m.toInt ≤ d.toInt + d'.toInt := by
  obtain ⟨a, -, hda, htopa⟩ := hp.exists_top
  obtain ⟨b, -, hdb, htopb⟩ := hq.exists_top
  obtain ⟨e, he, hm⟩ := hmul.attained
  have hle := weight_mul_le hw htopa htopb e he
  omega

theorem mul_eq (hw : IsWeight w) (hp : IsMaxWeight w p d) (hq : IsMaxWeight w q d')
    (hmul : IsMaxWeight w (p.mul q) m) {a b : Exponents}
    (h : ∀ x ∈ p.terms, ∀ y ∈ q.terms, Exponents.NoOverflow x y) (ha : IsOddTop w p a)
    (hb : IsOddTop w q b) : m.toInt = d.toInt + d'.toInt := by
  obtain ⟨e, he, hwe⟩ := exists_odd_term_mul hw h ha hb
  have htop : ∀ e' ∈ (p.mul q).terms, w e' ≤ w e := by
    rw [hwe]
    exact weight_mul_le hw ha.top hb.top
  rw [hp.eq_of_top ha.mem_terms ha.top, hq.eq_of_top hb.mem_terms hb.top, hmul.eq_of_top he htop,
    hwe, Nat.cast_add]

end IsMaxWeight

/-- The law of degrees for two factors. Their degrees are added without overflow; the degree of the
    product is at most the sum, and equal to it if each factor has a term with an odd coefficient
    among its heaviest ones. -/
structure DegreeLaw (w : Exponents → ℕ) (deg : Poly → Int32) (p q : Poly) : Prop where
  exact : (deg p + deg q).toInt = (deg p).toInt + (deg q).toInt
  bound : deg (p.mul q) ≤ deg p + deg q
  sharp : (∃ e, IsOddTop w p e) → (∃ e, IsOddTop w q e) → deg (p.mul q) = deg p + deg q

/-- The law holds of every degree that is the greatest weight of the terms. -/
theorem degreeLaw_of_isWeight (hw : IsWeight w) (hzero : deg zero = -1)
    (hdeg : ∀ r : Poly, r.isCanonical = true → r ≠ zero → r.totalDegree ≤ 2147483647 →
      IsMaxWeight w r (deg r))
    (hp : p.isCanonical = true) (hq : q.isCanonical = true) (hp0 : p ≠ zero) (hq0 : q ≠ zero)
    (h : p.totalDegree + q.totalDegree ≤ 2147483647) : DegreeLaw w deg p q := by
  have hmaxp := hdeg p hp hp0 (by omega)
  have hmaxq := hdeg q hq hq0 (by omega)
  have hmax : p.mul q ≠ zero → IsMaxWeight w (p.mul q) (deg (p.mul q)) := by
    intro hne
    exact hdeg (p.mul q) (isCanonical_mul p q) hne ((totalDegree_mul_le p q).trans h)
  have hexact := hmaxp.toInt_add hw hmaxq h
  refine ⟨hexact, ?_, ?_⟩
  · rw [Int32.le_iff_toInt_le, hexact]
    by_cases hne : p.mul q = zero
    · have hneg : (-1 : Int32).toInt = -1 := by decide
      obtain ⟨a, -, hda⟩ := hmaxp.attained
      obtain ⟨b, -, hdb⟩ := hmaxq.attained
      rw [hne, hzero]
      omega
    · exact hmaxp.mul_le hw hmaxq (hmax hne)
  · rintro ⟨x, hx⟩ ⟨y, hy⟩
    have hover := noOverflow_of_totalDegree (p := p) (q := q) (by omega)
    have hne := mul_ne_zero_of_isOddTop hw hover hx hy
    rw [← Int32.toInt_inj, hexact]
    exact hmaxp.mul_eq hw hmaxq (hmax hne) hover hx hy

/-- The degrees of products, for factors whose total degrees add up to less than `2³¹`: the total
    degree and the degree in each variable are at most the sums of those of the factors, and equal
    to them where both factors have a term of the greatest degree with an odd coefficient. -/
theorem degree_degreeIn_mul (hp : p.isCanonical = true) (hq : q.isCanonical = true)
    (hp0 : p ≠ zero) (hq0 : q ≠ zero) (h : p.totalDegree + q.totalDegree ≤ 2147483647) :
    DegreeLaw Exponents.degree degree p q ∧
      ∀ k, DegreeLaw (fun e => (e k).toNat) (fun r => r.degreeIn k) p q := by
  have hz : ∀ r : Poly, r.isCanonical = true → r ≠ zero → r.isZero = false := by
    intro r hr hr0
    rw [Bool.eq_false_iff, Ne, isZero_iff_eq_zero hr]
    exact hr0
  constructor
  · refine degreeLaw_of_isWeight isWeight_degree rfl ?_ hp hq hp0 hq0 h
    intro r hr hr0 hrange
    exact isMaxWeight_degree hr (hz r hr hr0) hrange
  · intro k
    refine degreeLaw_of_isWeight (isWeight_apply k) rfl ?_ hp hq hp0 hq0 h
    intro r hr hr0 hrange
    exact isMaxWeight_degreeIn hr (hz r hr hr0) hrange k

/-- The polynomial `3 · x₁ · x₀ ^ (2³⁰ - 1) + 2 · x₀ ^ (2³⁰)`: both terms have the greatest degree,
    and one of them is odd. -/
def oddAndEven : Poly := .sum [⟨.sum [⟨.coeff 3, 1⟩], 1073741823⟩, ⟨.coeff 2, 1073741824⟩]

/-- The polynomial `2⁶³ + 5 · x₁ ^ (2³⁰ - 1)`. -/
def evenAndOdd : Poly := .sum [⟨.sum [⟨.coeff Int64.minValue, 0⟩, ⟨.coeff 5, 1073741823⟩], 0⟩]

theorem degree_degreeIn_mul_oddAndEven :
    oddAndEven.isCanonical = true ∧ evenAndOdd.isCanonical = true ∧ oddAndEven ≠ zero ∧
      evenAndOdd ≠ zero ∧ oddAndEven.totalDegree + evenAndOdd.totalDegree ≤ 2147483647 ∧
      (∃ e, IsOddTop Exponents.degree oddAndEven e) ∧
      (∃ e, IsOddTop Exponents.degree evenAndOdd e) ∧
      (oddAndEven.mul evenAndOdd).degree = oddAndEven.degree + evenAndOdd.degree ∧
      oddAndEven.degree + evenAndOdd.degree = 2147483647 ∧
      (oddAndEven.mul evenAndOdd).degreeIn 0 ≤ oddAndEven.degreeIn 0 + evenAndOdd.degreeIn 0 := by
  have hp : oddAndEven.isCanonical = true := by decide
  have hq : evenAndOdd.isCanonical = true := by decide
  have hp0 : oddAndEven ≠ zero := by decide
  have hq0 : evenAndOdd ≠ zero := by decide
  have hpdeg : oddAndEven.totalDegree ≤ 1073741824 :=
    totalDegree_le_of_paths (by decide +kernel)
  have hqdeg : evenAndOdd.totalDegree ≤ 1073741823 :=
    totalDegree_le_of_paths (by decide +kernel)
  have hdeg : oddAndEven.totalDegree + evenAndOdd.totalDegree ≤ 2147483647 :=
    Nat.add_le_add hpdeg hqdeg
  have hptop : IsOddTop Exponents.degree oddAndEven [1073741823, 1].toFinsupp := by
    refine isOddTop_of_paths (by decide) ?_
    simp only [Exponents.degree_toFinsupp]
    decide +kernel
  have hqtop : IsOddTop Exponents.degree evenAndOdd [0, 1073741823].toFinsupp := by
    refine isOddTop_of_paths (by decide) ?_
    simp only [Exponents.degree_toFinsupp]
    decide +kernel
  obtain ⟨htotal, hvars⟩ := degree_degreeIn_mul hp hq hp0 hq0 hdeg
  exact ⟨hp, hq, hp0, hq0, hdeg, ⟨_, hptop⟩, ⟨_, hqtop⟩, htotal.sharp ⟨_, hptop⟩ ⟨_, hqtop⟩,
    by decide, (hvars 0).bound⟩

/-- Even coefficients may leave nothing of the greatest degree. -/
example : (sum [⟨.coeff 2, 1⟩]).mul (sum [⟨.coeff Int64.minValue, 1⟩]) = zero := by decide

end Poly

end PolyCalc
