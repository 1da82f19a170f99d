import Mathlib.Data.List.DropRight
import Mathlib.Data.List.TakeWhile
import PolyCalc.Text.Blank

set_option autoImplicit false

/-! # White space at the ends of texts

A text without white space at its ends is left as it is by `trim` (`Trimmed.trim_eq`), and white
space that is put in front of it or behind it is taken off again (`trim_gap_append`,
`trim_append_gap`).

The readers of words take characters as long as they belong to the word. What they take is the word
itself if the character behind it does not belong to it (`takeWhile_append_exact`). -/

namespace PolyCalc.Text

variable {p : Char → Bool} {a b cs gap : List Char}

/-! ## Characters in front of a text -/

/-- The text is empty, or its first character is not of the given kind. -/
def Stops (p : Char → Bool) (cs : List Char) : Prop := ∀ c, cs.head? = some c → p c = false

theorem stops_nil : Stops p [] := by simp [Stops]

theorem stops_cons {c : Char} : Stops p (c :: cs) ↔ p c = false := by simp [Stops]

theorem not_stops_iff : ¬ Stops p cs ↔ ∃ c cs', cs = c :: cs' ∧ p c = true := by
  cases cs <;> simp [Stops]

theorem stops_append (ha : a ≠ []) : Stops p (a ++ b) ↔ Stops p a := by
  obtain ⟨c, a, rfl⟩ := List.exists_cons_of_ne_nil ha
  rw [List.cons_append, stops_cons, stops_cons]

theorem stops_reverse_append (hb : b ≠ []) : Stops p (a ++ b).reverse ↔ Stops p b.reverse := by
  rw [List.reverse_append, stops_append (by simpa using hb)]

theorem stops_dropWhile (p : Char → Bool) (cs : List Char) : Stops p (cs.dropWhile p) := by
  intro c hc
  have hnot := List.head?_dropWhile_not p cs
  rw [hc] at hnot
  simpa using hnot

theorem Stops.dropWhile_eq (h : Stops p cs) : cs.dropWhile p = cs := by
  cases cs with
  | nil => rfl
  | cons c cs =>
    have hc := stops_cons.mp h
    simp [hc]

theorem Stops.takeWhile_eq (h : Stops p cs) : cs.takeWhile p = [] := by
  cases cs with
  | nil => rfl
  | cons c cs =>
    have hc := stops_cons.mp h
    simp [hc]

theorem takeWhile_append_exact (ha : ∀ c ∈ a, p c = true) (hb : Stops p b) :
    (a ++ b).takeWhile p = a := by
  rw [List.takeWhile_append_of_pos ha, hb.takeWhile_eq, List.append_nil]

theorem dropWhile_append_exact (ha : ∀ c ∈ a, p c = true) (hb : Stops p b) :
    (a ++ b).dropWhile p = b := by
  rw [List.dropWhile_append_of_pos ha, hb.dropWhile_eq]

/-! ## Trimming -/

/-- The text neither begins nor ends in white space. -/
def Trimmed (cs : List Char) : Prop := Stops isBlank cs ∧ Stops isBlank cs.reverse

theorem Trimmed.trim_eq (h : Trimmed cs) : trim cs = cs := by
  rw [trim, trimStart, h.1.dropWhile_eq, trimEnd, h.2.dropWhile_eq, List.reverse_reverse]

theorem trimEnd_append_gap (hgap : ∀ c ∈ gap, isBlank c = true) :
    trimEnd (cs ++ gap) = trimEnd cs := by
  have hreverse : ∀ c ∈ gap.reverse, isBlank c = true := by simpa using hgap
  rw [trimEnd, List.reverse_append, List.dropWhile_append_of_pos hreverse, ← trimEnd]

theorem trim_gap_append (hgap : ∀ c ∈ gap, isBlank c = true) : trim (gap ++ cs) = trim cs := by
  rw [trim, trimStart, List.dropWhile_append_of_pos hgap, ← trimStart, ← trim]

theorem trim_append_gap (hgap : ∀ c ∈ gap, isBlank c = true) : trim (cs ++ gap) = trim cs := by
  rw [trim, trim, trimStart, trimStart, List.dropWhile_append]
  split
  · next hempty =>
    rw [List.isEmpty_iff] at hempty
    have hnil : gap.dropWhile isBlank = [] := List.dropWhile_eq_nil_iff.mpr hgap
    rw [hempty, hnil]
  · exact trimEnd_append_gap hgap

theorem trimEnd_append (h : Stops isBlank a.reverse) : trimEnd (a ++ b) = a ++ trimEnd b := by
  rw [trimEnd, trimEnd, List.reverse_append, List.dropWhile_append]
  split
  · next hempty =>
    rw [List.isEmpty_iff] at hempty
    rw [h.dropWhile_eq, hempty]
    simp
  · simp

theorem Trimmed.trim_append (h : Trimmed a) (ha : a ≠ []) : trim (a ++ b) = a ++ trimEnd b := by
  rw [trim, trimStart, ((stops_append ha).mpr h.1).dropWhile_eq, trimEnd_append h.2]

/-- Trimming takes white space off at both ends. -/
theorem exists_eq_trim (cs : List Char) :
    ∃ before after, cs = before ++ (trim cs ++ after) ∧ (∀ c ∈ before, isBlank c = true) ∧
      ∀ c ∈ after, isBlank c = true := by
  refine ⟨cs.takeWhile isBlank, ((trimStart cs).reverse.takeWhile isBlank).reverse, ?_, ?_, ?_⟩
  · have hend : trimStart cs =
        trim cs ++ ((trimStart cs).reverse.takeWhile isBlank).reverse := by
      rw [trim, trimEnd, ← List.reverse_append, List.takeWhile_append_dropWhile,
        List.reverse_reverse]
    rw [← hend, trimStart, List.takeWhile_append_dropWhile]
  · exact fun c hc => List.mem_takeWhile_imp hc
  · intro c hc
    rw [List.mem_reverse] at hc
    exact List.mem_takeWhile_imp hc

theorem trimmed_trim (cs : List Char) : Trimmed (trim cs) := by
  refine ⟨?_, ?_⟩
  -- The first character of what is left after trimming at the end is still the first one.
  · obtain ⟨after, hafter⟩ : trim cs <+: trimStart cs := by
      rw [trim, trimEnd, ← List.reverse_suffix, List.reverse_reverse]
      exact List.dropWhile_suffix _
    by_cases hempty : trim cs = []
    · rw [hempty]
      exact stops_nil
    · rw [← stops_append hempty, hafter]
      exact stops_dropWhile isBlank cs
  · rw [trim, trimEnd, List.reverse_reverse]
    exact stops_dropWhile isBlank _

theorem trim_eq_nil_iff : trim cs = [] ↔ ∀ c ∈ cs, isBlank c = true := by
  constructor
  · intro h
    obtain ⟨before, after, heq, hbefore, hafter⟩ := exists_eq_trim cs
    rw [heq, h]
    exact List.forall_mem_append.mpr ⟨hbefore, hafter⟩
  · intro h
    have htrim : trim ([] ++ cs) = trim [] := trim_append_gap h
    rw [List.nil_append] at htrim
    rw [htrim]
    rfl

/-- White space at the end of a text stands behind its last other character. -/
theorem exists_of_append_gap_eq {x after : List Char} (h : a ++ gap = x ++ after)
    (hgap : ∀ c ∈ gap, isBlank c = true) (hx : Stops isBlank x.reverse) :
    ∃ after', a = x ++ after' ∧ after = after' ++ gap := by
  rcases List.append_eq_append_iff.mp h with ⟨y, rfl, hy⟩ | ⟨y, rfl, hy⟩
  · cases y using List.reverseRecOn with
    | nil => exact ⟨[], by simp, by simpa using hy.symm⟩
    | append_singleton y c =>
      have hblank : isBlank c = true := hgap c (by simp [hy])
      rw [hx c (by simp)] at hblank
      cases hblank
  · exact ⟨y, rfl, hy⟩

end PolyCalc.Text
