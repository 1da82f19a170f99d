import Mathlib.Data.List.Basic
import PolyCalc.Text.Lines

set_option autoImplicit false

/-! # Lines of texts in a row

A line break ends a line for good: what follows it is broken into lines as if it stood alone
(`breakLines_append_newline`). So the lines of a text that ends in a line break, and of any text
after it, are the lines of both (`splitLines_append`). `clearLines` makes lines empty in the text
itself, where their line breaks stay (`breakLines_clearLines`). -/

namespace PolyCalc.Text

variable {α : Type} [DecidableEq α] {newline c : α} {a b cs : List α}

/-! ## Line breaks one by one -/

theorem breakLines_newline (cs : List α) :
    breakLines newline (newline :: cs) =
      ([] :: (breakLines newline cs).1, (breakLines newline cs).2) := by
  rw [breakLines, if_pos rfl]

theorem breakLines_of_nil (hc : c ≠ newline) (h : (breakLines newline cs).1 = []) :
    breakLines newline (c :: cs) = ([], c :: (breakLines newline cs).2) := by
  rw [breakLines, if_neg hc]
  split
  · next hsplit => rw [hsplit]
  · next hsplit => simp [hsplit] at h

theorem breakLines_of_cons (hc : c ≠ newline) {line : List α} {lines : List (List α)}
    (h : (breakLines newline cs).1 = line :: lines) :
    breakLines newline (c :: cs) = ((c :: line) :: lines, (breakLines newline cs).2) := by
  rw [breakLines, if_neg hc]
  split
  · next hsplit => simp [hsplit] at h
  · next hsplit =>
    simp only [hsplit, List.cons.injEq] at h
    rw [hsplit, h.1, h.2]

/-- A line break ends the last line of what stands before it. -/
theorem breakLines_append_newline (a b : List α) :
    breakLines newline (a ++ newline :: b) =
      ((breakLines newline a).1 ++ (breakLines newline a).2 :: (breakLines newline b).1,
        (breakLines newline b).2) := by
  induction a with
  | nil => rw [List.nil_append, breakLines_newline]; rfl
  | cons c a ih =>
    rw [List.cons_append]
    by_cases hc : c = newline
    · rw [hc, breakLines_newline, breakLines_newline, ih]
      rfl
    · cases hlines : (breakLines newline a).1 with
      | nil =>
        rw [hlines] at ih
        rw [breakLines_of_nil hc hlines, breakLines_of_cons hc (congrArg Prod.fst ih), ih]
        rfl
      | cons line lines =>
        rw [hlines] at ih
        rw [breakLines_of_cons hc hlines, breakLines_of_cons hc (congrArg Prod.fst ih), ih]
        rfl

/-- As many lines are ended as there are line breaks. -/
theorem length_breakLines (cs : List α) :
    (breakLines newline cs).1.length = cs.count newline := by
  induction cs with
  | nil => rfl
  | cons c cs ih =>
    by_cases hc : c = newline
    · rw [hc, breakLines_newline, List.count_cons_self, List.length_cons, ih]
    · rw [List.count_cons_of_ne hc, ← ih]
      cases hlines : (breakLines newline cs).1 with
      | nil => rw [breakLines_of_nil hc hlines]
      | cons line lines => rw [breakLines_of_cons hc hlines]; rfl

theorem breakLines_of_notMem (h : newline ∉ cs) : breakLines newline cs = ([], cs) := by
  induction cs with
  | nil => rfl
  | cons c cs ih =>
    simp only [List.mem_cons, not_or] at h
    have hrest := ih h.2
    rw [breakLines_of_nil (Ne.symm h.1) (by rw [hrest]), hrest]

/-- Lines have no characters that the text does not have. -/
theorem mem_of_mem_breakLines {x : α} (h : (∃ line ∈ (breakLines newline cs).1, x ∈ line) ∨
    x ∈ (breakLines newline cs).2) : x ∈ cs := by
  induction cs with
  | nil => simp [breakLines] at h
  | cons c cs ih =>
    by_cases hc : c = newline
    · rw [hc, breakLines_newline] at h
      simp only [List.mem_cons, exists_eq_or_imp, List.not_mem_nil, false_or] at h
      exact List.mem_cons_of_mem c (ih h)
    · cases hlines : (breakLines newline cs).1 with
      | nil =>
        rw [breakLines_of_nil hc hlines] at h
        simp only [List.not_mem_nil, false_and, exists_false, false_or, List.mem_cons] at h
        rcases h with rfl | h
        · exact List.mem_cons_self
        · exact List.mem_cons_of_mem c (ih (Or.inr h))
      | cons line lines =>
        rw [hlines] at ih
        rw [breakLines_of_cons hc hlines] at h
        simp only [List.mem_cons, exists_eq_or_imp, or_assoc] at h ih
        rcases h with rfl | h
        · exact List.mem_cons_self
        · exact List.mem_cons_of_mem c (ih h)

theorem mem_of_mem_dropFinal {x : α} (h : x ∈ dropFinal c cs) : x ∈ cs := by
  unfold dropFinal at h
  split at h
  · exact (List.dropLast_sublist cs).subset h
  · exact h

/-- At most one occurrence is taken off. -/
theorem exists_eq_dropFinal (c : α) (cs : List α) :
    dropFinal c cs = cs ∨ cs = dropFinal c cs ++ [c] := by
  unfold dropFinal
  split
  · next hlast =>
    obtain ⟨init, rfl⟩ := List.getLast?_eq_some_iff.mp hlast
    exact Or.inr (by rw [List.dropLast_concat])
  · exact Or.inl rfl

/-! ## Joined lines -/

section Joined

variable {β : Type} {sep last gap : List β} {as bs : List (List β)}

theorem intercalate_append (has : as ≠ []) (hbs : bs ≠ []) :
    sep.intercalate (as ++ bs) = sep.intercalate as ++ sep ++ sep.intercalate bs := by
  induction as with
  | nil => exact absurd rfl has
  | cons a as ih =>
    by_cases hempty : as = []
    · rw [hempty, List.singleton_append, List.intercalate_cons_of_ne_nil hbs,
        List.intercalate_singleton]
    · rw [List.cons_append, List.intercalate_cons_of_ne_nil (by simp [hempty]), ih hempty,
        List.intercalate_cons_of_ne_nil hempty]
      simp

theorem intercalate_append_last :
    sep.intercalate (as ++ [last ++ gap]) = sep.intercalate (as ++ [last]) ++ gap := by
  by_cases hempty : as = []
  · subst hempty
    simp
  · rw [intercalate_append hempty (by simp), intercalate_append hempty (by simp)]
    simp

theorem mem_of_mem_intercalate {x : β} (h : x ∈ sep.intercalate as) :
    x ∈ sep ∨ ∃ a ∈ as, x ∈ a := by
  induction as with
  | nil => simp at h
  | cons a as ih =>
    by_cases hempty : as = []
    · subst hempty
      rw [List.intercalate_singleton] at h
      exact Or.inr ⟨a, List.mem_cons_self, h⟩
    · rw [List.intercalate_cons_of_ne_nil hempty, List.append_assoc, List.mem_append,
        List.mem_append] at h
      rcases h with h | h | h
      · exact Or.inr ⟨a, List.mem_cons_self, h⟩
      · exact Or.inl h
      · rcases ih h with hsep | ⟨a', ha', hx⟩
        · exact Or.inl hsep
        · exact Or.inr ⟨a', List.mem_cons_of_mem a ha', hx⟩

end Joined

/-! ## All lines -/

theorem splitLines_of_nil (h : (breakLines newline cs).2 = []) :
    splitLines newline cs = (breakLines newline cs).1 := by
  rw [splitLines]
  split
  · next hsplit => rw [hsplit]
  · next hne hsplit =>
    rw [hsplit] at h
    exact absurd h hne

theorem splitLines_of_ne_nil (h : (breakLines newline cs).2 ≠ []) :
    splitLines newline cs = (breakLines newline cs).1 ++ [(breakLines newline cs).2] := by
  rw [splitLines]
  split
  · next hsplit => exact absurd (congrArg Prod.snd hsplit) h
  · next hsplit => rw [hsplit]

theorem breakLines_of_getLast? (h : a = [] ∨ a.getLast? = some newline) :
    (breakLines newline a).2 = [] := by
  rcases h with rfl | hlast
  · rfl
  · obtain ⟨init, rfl⟩ := List.getLast?_eq_some_iff.mp hlast
    rw [breakLines_append_newline]
    rfl

/-- The lines of two texts in a row, of which the first one is empty or ends in a line break. -/
theorem splitLines_append (h : a = [] ∨ a.getLast? = some newline) (b : List α) :
    splitLines newline (a ++ b) = splitLines newline a ++ splitLines newline b := by
  rw [splitLines_of_nil (breakLines_of_getLast? h)]
  rcases h with rfl | hlast
  · rfl
  · obtain ⟨init, rfl⟩ := List.getLast?_eq_some_iff.mp hlast
    rw [List.append_assoc, List.singleton_append]
    have hwhole : breakLines newline (init ++ newline :: b) = _ := breakLines_append_newline init b
    have hfirst : breakLines newline (init ++ [newline]) = _ := breakLines_append_newline init []
    rw [hfirst]
    by_cases hrest : (breakLines newline b).2 = []
    · rw [splitLines_of_nil (by rw [hwhole, hrest]), splitLines_of_nil hrest, hwhole]
      simp [breakLines]
    · rw [splitLines_of_ne_nil (by rwa [hwhole]), splitLines_of_ne_nil hrest, hwhole]
      simp [breakLines]

/-- A text that ends in a line break has as many lines as line breaks. -/
theorem length_splitLines (h : a = [] ∨ a.getLast? = some newline) :
    (splitLines newline a).length = a.count newline := by
  rw [splitLines_of_nil (breakLines_of_getLast? h), length_breakLines]

/-! ## Lines made empty -/

/-- The text without the characters of some lines, given by their numbers; the first line has the
    number `n`. Line breaks stay. -/
def clearLines (newline : α) (clear : Nat → Bool) : (n : Nat) → List α → List α
  | _, [] => []
  | n, c :: cs =>
    if c = newline then c :: clearLines newline clear (n + 1) cs
    else if clear n then clearLines newline clear n cs
    else c :: clearLines newline clear n cs

/-- The lines of the given numbers are made empty, the first one has the number `n`. -/
def clearNumbered {β : Type} (clear : Nat → Bool) : (n : Nat) → List (List β) → List (List β)
  | _, [] => []
  | n, line :: lines => (if clear n then [] else line) :: clearNumbered clear (n + 1) lines

theorem clearNumbered_append {β : Type} (clear : Nat → Bool) (n : Nat) (as bs : List (List β)) :
    clearNumbered clear n (as ++ bs) =
      clearNumbered clear n as ++ clearNumbered clear (n + as.length) bs := by
  induction as generalizing n with
  | nil => rfl
  | cons a as ih =>
    rw [List.cons_append, clearNumbered, clearNumbered, ih, List.length_cons, Nat.add_assoc,
      Nat.add_comm 1]
    rfl

theorem map_clearNumbered {β γ : Type} {f : List β → List γ} (hf : f [] = []) (clear : Nat → Bool)
    (n : Nat) (lines : List (List β)) :
    (clearNumbered clear n lines).map f = clearNumbered clear n (lines.map f) := by
  induction lines generalizing n with
  | nil => rfl
  | cons line lines ih =>
    simp only [clearNumbered, List.map_cons, ih, apply_ite f, hf]

theorem breakLines_clearLines (clear : Nat → Bool) (n : Nat) (cs : List α) :
    breakLines newline (clearLines newline clear n cs) =
      (clearNumbered clear n (breakLines newline cs).1,
        if clear (n + (breakLines newline cs).1.length) then [] else (breakLines newline cs).2) := by
  induction cs generalizing n with
  | nil =>
    rw [clearLines, breakLines, clearNumbered]
    split <;> rfl
  | cons c cs ih =>
    rw [clearLines]
    by_cases hc : c = newline
    · rw [if_pos hc, hc, breakLines_newline, breakLines_newline, ih]
      simp only [clearNumbered, ite_self, List.length_cons, Nat.add_assoc, Nat.add_comm 1]
    · rw [if_neg hc]
      cases hlines : (breakLines newline cs).1 with
      -- The character belongs to what follows the last line break.
      | nil =>
        have hrest := ih n
        rw [hlines] at hrest
        rw [breakLines_of_nil hc hlines]
        by_cases hclear : clear n = true
        · rw [if_pos hclear, hrest]
          simp [hclear]
        · rw [if_neg hclear, breakLines_of_nil hc (by rw [hrest, clearNumbered]), hrest]
          simp [hclear, clearNumbered]
      -- It belongs to the first line.
      | cons line lines =>
        have hrest := ih n
        rw [hlines, clearNumbered] at hrest
        rw [breakLines_of_cons hc hlines]
        by_cases hclear : clear n = true
        · rw [if_pos hclear, hrest]
          simp [hclear, clearNumbered]
        · rw [if_neg hclear] at hrest ⊢
          rw [breakLines_of_cons hc (congrArg Prod.fst hrest), hrest]
          simp [hclear, clearNumbered]

/-- The lines after clearing. A last line without a line break is not there any more once it is
    empty. -/
theorem splitLines_clearLines (clear : Nat → Bool) (n : Nat) (cs : List α) :
    splitLines newline (clearLines newline clear n cs) =
        clearNumbered clear n (splitLines newline cs) ∨
      splitLines newline (clearLines newline clear n cs) ++ [[]] =
        clearNumbered clear n (splitLines newline cs) := by
  have hclear : breakLines newline (clearLines newline clear n cs) = _ :=
    breakLines_clearLines clear n cs
  by_cases hrest : (breakLines newline cs).2 = []
  · rw [hrest, ite_self] at hclear
    have hrest' := congrArg Prod.snd hclear
    rw [splitLines_of_nil hrest, splitLines_of_nil hrest', hclear]
    exact Or.inl rfl
  · rw [splitLines_of_ne_nil hrest, clearNumbered_append]
    by_cases hlast : clear (n + (breakLines newline cs).1.length) = true
    · rw [if_pos hlast] at hclear
      have hrest' := congrArg Prod.snd hclear
      rw [splitLines_of_nil hrest', hclear]
      simp [clearNumbered, hlast]
    · rw [if_neg hlast] at hclear
      have hrest' : (breakLines newline (clearLines newline clear n cs)).2 ≠ [] := by
        rwa [hclear]
      rw [splitLines_of_ne_nil hrest', hclear]
      simp [clearNumbered, hlast]

end PolyCalc.Text
