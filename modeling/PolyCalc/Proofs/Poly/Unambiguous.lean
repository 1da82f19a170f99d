import PolyCalc.Poly.Printer
import PolyCalc.Proofs.Poly.Grammar

set_option autoImplicit false

/-! # Written forms are unambiguous

Two trees with the same written form are the same tree (`toString_eq_toString_iff`). This holds of
all trees, also of those that no reader accepts: with empty sums, which are written as nothing, and
with exponents beyond the limit of readers.

A written form is taken apart by its brackets alone. All of them are balanced (`closes_render`), so
the first monomial ends at the partner of the first bracket, whatever follows it. Within a monomial
the exponent is what stands after the last comma, since numerals have none. -/

namespace PolyCalc

open Text

variable {as bs xs ys : List Char} {d e : UInt32}

/-! ## Monomials -/

namespace Text

/-- What follows the last occurrence of a character determines what stands before it. -/
theorem append_cons_inj_of_notMem_right {c : Char} (hx : c ∉ xs) (hy : c ∉ ys)
    (h : as ++ c :: xs = bs ++ c :: ys) : as = bs ∧ xs = ys := by
  rcases List.append_eq_append_iff.mp h with ⟨zs, rfl, hrest⟩ | ⟨zs, rfl, hrest⟩
  · cases zs with
    | nil => simpa using hrest
    | cons z zs =>
      obtain ⟨-, rfl⟩ := List.cons.inj hrest
      exact absurd (by simp) hx
  · cases zs with
    | nil => simpa using hrest.symm
    | cons z zs =>
      obtain ⟨-, rfl⟩ := List.cons.inj hrest
      exact absurd (by simp) hy

end Text

theorem closes_mono (h : Closes 0 as) (e : UInt32) : Closes 0 (as ++ ',' :: writeNat e.toNat) :=
  h.append (.plain (by decide) (closes_of_isNatural (isNatural_writeNat e.toNat)))

theorem closes_renderMono (h : Closes 0 as) (e : UInt32) : Closes 0 (renderMono as e) := by
  unfold renderMono
  exact (closes_mono h e).bracketed .nil

/-- The first bracket of a monomial is closed by its last one, whatever follows. -/
theorem splitAtClose_renderMono (h : Closes 0 as) (e : UInt32) :
    splitAtClose 0 ((renderMono as e ++ xs).tail) = some (as ++ ',' :: writeNat e.toNat, xs) := by
  refine splitAtClose_eq_some_iff.mpr ⟨?_, closes_mono h e⟩
  simp [renderMono]

/-- A text that begins with a monomial shows where it ends and what it is made of. -/
theorem renderMono_append_inj (ha : Closes 0 as) (hb : Closes 0 bs)
    (h : renderMono as d ++ xs = renderMono bs e ++ ys) : as = bs ∧ d = e ∧ xs = ys := by
  have hsplit : splitAtClose 0 ((renderMono as d ++ xs).tail) = _ := splitAtClose_renderMono ha d
  rw [h, splitAtClose_renderMono hb e] at hsplit
  obtain ⟨hinner, rfl⟩ := Prod.mk.inj (Option.some.inj hsplit)
  have hcomma (n : Nat) : ',' ∉ writeNat n := notMem_writeNat rfl n
  obtain ⟨rfl, hexp⟩ := append_cons_inj_of_notMem_right (hcomma _) (hcomma _) hinner
  exact ⟨rfl, UInt32.toNat_inj.mp (writeNat_injective hexp.symm), rfl⟩

namespace Poly

/-! ## Trees -/

theorem renderMonos_cons (m : Mono Poly) (ms : List (Mono Poly)) :
    renderMonos (m :: ms) =
      renderMono m.coef.render m.exp ++ if ms = [] then [] else '+' :: renderMonos ms := by
  cases ms with
  | nil => simp [renderMonos]
  | cons n ns => simp [renderMonos]

mutual

theorem closes_render : ∀ p : Poly, Closes 0 p.render
  | .coeff c => closes_of_isInteger (isInteger_writeInt c.toInt)
  | .sum ms => closes_renderMonos ms

theorem closes_renderMonos : ∀ ms : List (Mono Poly), Closes 0 (renderMonos ms)
  | [] => .nil
  | ⟨p, e⟩ :: ms => by
    rw [renderMonos_cons]
    refine (closes_renderMono (closes_render p) e).append ?_
    split
    · exact .nil
    · exact .plain (by decide) (closes_renderMonos ms)

end

/-- The written form of a number is that of no sum: it is not empty and begins with no bracket. -/
theorem render_coeff_ne_renderMonos (c : Int64) (ms : List (Mono Poly)) :
    (coeff c).render ≠ renderMonos ms := by
  have hc := isInteger_writeInt c.toInt
  intro h
  cases ms with
  | nil => exact hc.ne_nil h
  | cons m ms =>
    refine head?_ne_open_of_isInteger hc ?_
    show (coeff c).render.head? = _
    rw [h, renderMonos_cons]
    rfl

mutual

theorem render_injective : ∀ p q : Poly, p.render = q.render → p = q
  | .coeff a, .coeff b, h => by rw [Int64.toInt_inj.mp (writeInt_injective h)]
  | .coeff a, .sum ns, h => absurd h (render_coeff_ne_renderMonos a ns)
  | .sum ms, .coeff b, h => absurd h.symm (render_coeff_ne_renderMonos b ms)
  | .sum ms, .sum ns, h => congrArg sum (renderMonos_injective ms ns h)

theorem renderMonos_injective : ∀ ms ns : List (Mono Poly),
    renderMonos ms = renderMonos ns → ms = ns
  | [], [], _ => rfl
  | [], n :: ns, h => by
    rw [renderMonos_cons] at h
    cases h
  | m :: ms, [], h => by
    rw [renderMonos_cons] at h
    cases h
  | ⟨p, d⟩ :: ms, ⟨q, e⟩ :: ns, h => by
    rw [renderMonos_cons, renderMonos_cons] at h
    obtain ⟨hcoef, rfl, hrest⟩ := renderMono_append_inj (closes_render p) (closes_render q) h
    rw [render_injective p q hcoef]
    -- A `+` follows exactly if there are more monomials.
    split at hrest
    · next hms =>
      split at hrest
      · next hns => rw [hms, hns]
      · cases hrest
    · split at hrest
      · cases hrest
      · rw [renderMonos_injective ms ns (List.cons.inj hrest).2]

end

/-- The written form of a tree is that of no other tree. -/
theorem toString_eq_toString_iff (p q : Poly) : toString p = toString q ↔ p = q := by
  constructor
  · intro h
    exact render_injective p q (String.ofList_injective h)
  · rintro rfl
    rfl

/-- An empty sum is written as nothing, and still tells itself from a number. -/
example : toString (sum [⟨sum [], 4294967295⟩, ⟨sum [⟨coeff 5, 0⟩], 0⟩]) =
    "(,4294967295)+((5,0),0)" := by decide

end Poly

end PolyCalc
