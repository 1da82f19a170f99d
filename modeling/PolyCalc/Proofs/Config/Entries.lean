import Mathlib.Data.List.Basic
import PolyCalc.Config.Document
import PolyCalc.Proofs.Text.Trimming

set_option autoImplicit false

/-! # The entries of a document

A document is a row of entries, each the title of a section or a key with its values, with gaps of
white space between them (`Rows`). The gap behind an entry has to be there, and behind a key
without values it has to hold a line break: without one the next word would be a value
(`Entry.EndedBy`). Nothing marks the end of a section. A title is told from a key by what follows:
a gap and a word, and not a colon.

The readers take what is written and go on behind the gap (`takePair_rows`,
`takeSections_rows`). The way back is in `PolyCalc.Proofs.Config.Reading`: what the readers take was
written like that (`rows_of_takeSections` there), so a text without comments is read exactly if it
is a row of entries (`parseFiltered_eq_ok_iff` there). For it the text must have no white space but
spaces, tabs and line breaks, since other white space may stand within a word. -/

namespace PolyCalc.Config

open Text

variable {cs rest gap text w key title : List Char} {ws : List (List Char)} {values : List Value}

/-! ## Characters -/

/-- The white space that parts entries. -/
def gapChars : List Char := [' ', '\t', '\n', '\r']

/-- Only white space that parts entries. -/
def Gap (gap : List Char) : Prop := ∀ c ∈ gap, c ∈ gapChars

/-- Only spaces and tabs. -/
def Spaces (gap : List Char) : Prop := ∀ c ∈ gap, isSpace c = true

instance (gap : List Char) : Decidable (Spaces gap) := decidable_of_iff' _ List.all_eq_true.symm

/-- A line feed or a carriage return. -/
def isLineBreak (c : Char) : Bool := c == '\n' || c == '\r'

theorem isBlank_of_mem_gapChars {c : Char} (h : c ∈ gapChars) : isBlank c = true := by
  have hall : gapChars.all isBlank = true := by decide
  exact List.all_eq_true.mp hall c h

theorem isWordChar_of_mem_gapChars {c : Char} (h : c ∈ gapChars) : isWordChar c = false := by
  have hall : gapChars.all (!isWordChar ·) = true := by decide
  simpa using List.all_eq_true.mp hall c h

theorem mem_gapChars_iff {c : Char} :
    c ∈ gapChars ↔ isSpace c = true ∨ isLineBreak c = true := by
  simp [gapChars, isSpace, isLineBreak, or_assoc]

theorem isSpace_of_isWordChar {c : Char} (h : isWordChar c = true) : isSpace c = false := by
  rw [← Bool.not_eq_true]
  intro hspace
  rw [isWordChar_of_mem_gapChars (mem_gapChars_iff.mpr (Or.inl hspace))] at h
  cases h

theorem isIdentRest_of_isIdentStart {c : Char} (h : isIdentStart c = true) :
    isIdentRest c = true := by
  simp only [isIdentStart, Bool.or_eq_true] at h
  simp only [isIdentRest, Char.isAlphanum, Bool.or_eq_true]
  rcases h with h | h
  · exact Or.inl (Or.inl h)
  · exact Or.inr h

/-- The characters of identifiers are of the first 128. -/
theorem toNat_lt_of_isIdentRest {c : Char} (h : isIdentRest c = true) : c.toNat < 128 := by
  unfold isIdentRest Char.isAlphanum Char.isAlpha Char.isUpper Char.isLower Char.isDigit at h
  simp only [Bool.or_eq_true, Bool.and_eq_true, decide_eq_true_eq, beq_iff_eq,
    UInt32.le_iff_toNat_le] at h
  have htoNat : c.toNat = c.val.toNat := rfl
  rcases h with ((⟨-, h⟩ | ⟨-, h⟩) | ⟨-, h⟩) | rfl
  · exact lt_of_le_of_lt h (by decide)
  · exact lt_of_le_of_lt h (by decide)
  · exact lt_of_le_of_lt h (by decide)
  · decide

theorem of_isIdentRest {c : Char} (h : isIdentRest c = true) :
    isWordChar c = true ∧ isBlank c = false := by
  have hall : ∀ n < 128, isIdentRest (Char.ofNat n) = true →
      isWordChar (Char.ofNat n) = true ∧ isBlank (Char.ofNat n) = false := by
    decide +kernel
  have hc := hall c.toNat (toNat_lt_of_isIdentRest h)
  rw [Char.ofNat_toNat] at hc
  exact hc h

theorem of_isIdentStart {c : Char} (h : isIdentStart c = true) :
    isWordChar c = true ∧ c ≠ ':' ∧ c ≠ ',' := by
  refine ⟨(of_isIdentRest (isIdentRest_of_isIdentStart h)).1, ?_, ?_⟩
  · rintro rfl
    cases h
  · rintro rfl
    cases h

theorem of_isLineBreak {c : Char} (h : isLineBreak c = true) :
    (c == ':') = false ∧ (c == ',') = false := by
  simp only [isLineBreak, Bool.or_eq_true, beq_iff_eq] at h
  rcases h with rfl | rfl
  · decide
  · decide

theorem isSpace_of_isLineBreak {c : Char} (h : isLineBreak c = true) : isSpace c = false := by
  simp only [isLineBreak, Bool.or_eq_true, beq_iff_eq] at h
  rcases h with rfl | rfl
  · decide
  · decide

theorem isIdentRest_of_mem_gapChars {c : Char} (h : c ∈ gapChars) : isIdentRest c = false := by
  rw [← Bool.not_eq_true]
  intro hrest
  have hword := (of_isIdentRest hrest).1
  rw [isWordChar_of_mem_gapChars h] at hword
  cases hword

theorem Gap.isBlank (h : Gap gap) : ∀ c ∈ gap, isBlank c = true :=
  fun c hc => isBlank_of_mem_gapChars (h c hc)

theorem Spaces.toGap (h : Spaces gap) : Gap gap :=
  fun c hc => mem_gapChars_iff.mpr (Or.inl (h c hc))

/-! ## The written form of entries -/

/-- An identifier begins with a letter or `_`, and goes on with letters, digits and `_`. -/
def IsIdent (w : List Char) : Prop :=
  ∃ c cs, w = c :: cs ∧ isIdentStart c = true ∧ ∀ c ∈ cs, isIdentRest c = true

theorem isIdent_cons {c : Char} :
    IsIdent (c :: cs) ↔ isIdentStart c = true ∧ ∀ c ∈ cs, isIdentRest c = true := by
  simp [IsIdent]

instance : (w : List Char) → Decidable (IsIdent w)
  | [] => isFalse (by simp [IsIdent])
  | c :: cs =>
    decidable_of_iff' (isIdentStart c = true ∧ cs.all isIdentRest = true)
      (by rw [isIdent_cons, List.all_eq_true])

/-- A word of a value in which there is no white space of any kind. -/
def IsWord (w : List Char) : Prop := w ≠ [] ∧ ∀ c ∈ w, isWordChar c = true ∧ isBlank c = false

/-- Further words, each behind a comma. -/
inductive MoreWords : List (List Char) → List Char → Prop
  | nil : MoreWords [] []
  | cons {before after w cs : List Char} {ws : List (List Char)} :
    Spaces before → Spaces after → IsWord w → MoreWords ws cs →
    MoreWords (w :: ws) (before ++ ',' :: (after ++ (w ++ cs)))

/-- A title, or a key with its values. -/
inductive Entry where
  | title (title : List Char)
  | pair (pair : List Char × List Value)

/-- The texts of an entry. -/
inductive Entry.Written : Entry → List Char → Prop
  | title {title : List Char} : IsIdent title → Written (.title title) title
  | noValues {key before : List Char} :
    IsIdent key → Spaces before → Written (.pair (key, [])) (key ++ (before ++ [':']))
  | values {key before after w cs : List Char} {ws : List (List Char)} :
    IsIdent key → Spaces before → Spaces after → IsWord w → MoreWords ws cs →
    Written (.pair (key, (w :: ws).map Value.ofWord))
      (key ++ (before ++ ':' :: (after ++ (w ++ cs))))

/-- The gap parts the entry from the next one. -/
def Entry.EndedBy : Entry → List Char → Prop
  | .pair (_, []), gap => Gap gap ∧ ∃ c ∈ gap, isLineBreak c = true
  | _, gap => Gap gap ∧ gap ≠ []

/-- Entries in a row, with a gap between one and the next. -/
inductive Rows : List Entry → List Char → Prop
  | nil : Rows [] []
  | cons {e : Entry} {es : List Entry} {text gap cs : List Char} :
    e.Written text → (es = [] → gap = []) → (es ≠ [] → e.EndedBy gap) → Rows es cs →
    Rows (e :: es) (text ++ (gap ++ cs))

variable {e : Entry} {es later : List Entry}

theorem IsIdent.isIdentRest (h : IsIdent w) : ∀ c ∈ w, isIdentRest c = true := by
  obtain ⟨c, cs, rfl, hc, hcs⟩ := h
  exact List.forall_mem_cons.mpr ⟨isIdentRest_of_isIdentStart hc, hcs⟩

theorem Entry.EndedBy.toGap (h : e.EndedBy gap) : Gap gap := by
  unfold EndedBy at h
  split at h <;> exact h.1

theorem Entry.EndedBy.ne_nil (h : e.EndedBy gap) : gap ≠ [] := by
  unfold EndedBy at h
  split at h
  · obtain ⟨-, c, hc, -⟩ := h
    exact List.ne_nil_of_mem hc
  · exact h.2

/-- Every entry begins with an identifier. -/
theorem Entry.Written.starts (h : e.Written text) :
    ∃ c cs, text = c :: cs ∧ isIdentStart c = true := by
  cases h with
  | title hident =>
    obtain ⟨c, cs, rfl, hc, -⟩ := hident
    exact ⟨c, cs, rfl, hc⟩
  | noValues hident =>
    obtain ⟨c, cs, rfl, hc, -⟩ := hident
    exact ⟨c, _, List.cons_append, hc⟩
  | values hident =>
    obtain ⟨c, cs, rfl, hc, -⟩ := hident
    exact ⟨c, _, List.cons_append, hc⟩

theorem Entry.Written.ne_nil (h : e.Written text) : text ≠ [] := by
  obtain ⟨c, cs, rfl, -⟩ := h.starts
  simp

theorem IsWord.stops_reverse (h : IsWord w) : Stops isBlank w.reverse := by
  intro c hc
  exact (h.2 c (List.mem_reverse.mp (List.mem_of_mem_head? hc))).2

theorem MoreWords.stops_reverse (hcs : MoreWords ws cs) (hw : IsWord w) :
    Stops isBlank (w ++ cs).reverse := by
  induction hcs generalizing w with
  | nil =>
    rw [List.append_nil]
    exact hw.stops_reverse
  | @cons before after w' cs' ws _ _ hw' _ ih =>
    have hne : w' ++ cs' ≠ [] := by simp [hw'.1]
    have hsplit : w ++ (before ++ ',' :: (after ++ (w' ++ cs'))) =
        (w ++ (before ++ ',' :: after)) ++ (w' ++ cs') := by simp
    rw [hsplit, stops_reverse_append hne]
    exact ih hw'

/-- No entry ends in white space. -/
theorem Entry.Written.stops_reverse (h : e.Written text) : Stops isBlank text.reverse := by
  cases h with
  | title hident =>
    intro c hc
    have hmem := List.mem_reverse.mp (List.mem_of_mem_head? hc)
    exact (of_isIdentRest (hident.isIdentRest c hmem)).2
  | noValues =>
    rw [← List.append_assoc, stops_reverse_append (by simp)]
    exact stops_cons.mpr (by decide)
  | @values key before after w cs ws _ _ _ hw hcs =>
    have hne : w ++ cs ≠ [] := by simp [hw.1]
    have hsplit : key ++ (before ++ ':' :: (after ++ (w ++ cs))) =
        (key ++ (before ++ ':' :: after)) ++ (w ++ cs) := by simp
    rw [hsplit, stops_reverse_append hne]
    exact hcs.stops_reverse hw

theorem Rows.starts (h : Rows es cs) (hne : es ≠ []) :
    ∃ c cs', cs = c :: cs' ∧ isIdentStart c = true := by
  cases h with
  | nil => exact absurd rfl hne
  | cons htext =>
    obtain ⟨c, cs', rfl, hc⟩ := htext.starts
    exact ⟨c, _, List.cons_append, hc⟩

theorem Rows.eq_nil (h : Rows [] cs) : cs = [] := by
  cases h
  rfl

theorem Rows.trimmed (h : Rows es cs) : Trimmed cs := by
  refine ⟨?_, ?_⟩
  · cases h with
    | nil => exact stops_nil
    | cons htext =>
      obtain ⟨c, cs', rfl, hc⟩ := htext.starts
      exact stops_cons.mpr (of_isIdentRest (isIdentRest_of_isIdentStart hc)).2
  · induction h with
    | nil => exact stops_nil
    | @cons e es text gap cs htext hlast hended hrows ih =>
      by_cases hes : es = []
      · subst hes
        rw [hlast rfl, hrows.eq_nil, List.append_nil, List.append_nil]
        exact htext.stops_reverse
      · obtain ⟨c, cs', rfl, -⟩ := hrows.starts hes
        rw [← List.append_assoc, stops_reverse_append (by simp)]
        exact ih

/-- A gap with a line feed may stand behind any entry. -/
theorem Entry.endedBy_newline {before after : List Char} (hbefore : Gap before)
    (hafter : Gap after) : e.EndedBy (before ++ '\n' :: after) := by
  have hgap : Gap (before ++ '\n' :: after) := by
    refine List.forall_mem_append.mpr ⟨hbefore, List.forall_mem_cons.mpr ⟨?_, hafter⟩⟩
    simp [gapChars]
  unfold EndedBy
  split
  · exact ⟨hgap, '\n', by simp, by decide⟩
  · exact ⟨hgap, by simp⟩

/-- Two rows make one if a line feed parts them. -/
theorem Rows.append {cs' before after : List Char} (h : Rows es cs) (h' : Rows later cs')
    (hes : es ≠ []) (hlater : later ≠ []) (hbefore : Gap before) (hafter : Gap after) :
    Rows (es ++ later) (cs ++ ((before ++ '\n' :: after) ++ cs')) := by
  induction h with
  | nil => exact absurd rfl hes
  | @cons e es text gap' cs htext hlast hended hrows ih =>
    by_cases hempty : es = []
    · subst hempty
      rw [hlast rfl, hrows.eq_nil, List.append_nil, List.append_nil, List.singleton_append]
      exact .cons htext (fun h => absurd h hlater)
        (fun _ => Entry.endedBy_newline hbefore hafter) h'
    · rw [List.cons_append, List.append_assoc, List.append_assoc]
      exact .cons htext (by simp [hempty]) (fun _ => hended hempty) (ih hempty)

/-! ## Reading what is written -/

/-- A gap ends with a line break or before the next character: behind it there is nothing that line
    breaks are not and the next character is not. -/
theorem stops_skipSpaces_append {p : Char → Bool} (hgap : Gap gap)
    (hbreak : ∀ c, isLineBreak c = true → p c = false) (h : Stops p (skipSpaces cs)) :
    Stops p (skipSpaces (gap ++ cs)) := by
  induction gap with
  | nil => exact h
  | cons c gap ih =>
    obtain ⟨hc, hgap⟩ := List.forall_mem_cons.mp hgap
    rw [List.cons_append, skipSpaces]
    by_cases hspace : isSpace c = true
    · rw [List.dropWhile_cons_of_pos hspace]
      exact ih hgap
    · rw [List.dropWhile_cons_of_neg hspace, stops_cons]
      rcases mem_gapChars_iff.mp hc with h | h
      · exact absurd h hspace
      · exact hbreak c h

theorem skipSpaces_append (hgap : Spaces gap) (h : Stops isSpace cs) :
    skipSpaces (gap ++ cs) = cs := dropWhile_append_exact hgap h

theorem trim_skipSpaces (cs : List Char) : trim (skipSpaces cs) = trim cs := by
  have hspaces : ∀ c ∈ cs.takeWhile isSpace, isBlank c = true := by
    intro c hc
    exact isBlank_of_mem_gapChars (mem_gapChars_iff.mpr (Or.inl (List.mem_takeWhile_imp hc)))
  have htrim : trim (_ ++ skipSpaces cs) = trim (skipSpaces cs) := trim_gap_append hspaces
  rwa [skipSpaces, List.takeWhile_append_dropWhile, eq_comm] at htrim

theorem takeIdent?_append (h : IsIdent w) (hrest : Stops isIdentRest rest) :
    takeIdent? (w ++ rest) = some (w, rest) := by
  obtain ⟨c, cs, rfl, hc, hcs⟩ := h
  rw [List.cons_append, takeIdent?, if_pos hc, takeWhile_append_exact hcs hrest,
    dropWhile_append_exact hcs hrest]

theorem takeWord?_append (h : IsWord w) (hrest : Stops isWordChar rest) :
    takeWord? (w ++ rest) = some (w, rest) := by
  obtain ⟨hne, hchars⟩ := h
  obtain ⟨c, cs, rfl⟩ := List.exists_cons_of_ne_nil hne
  obtain ⟨hc, hcs⟩ := List.forall_mem_cons.mp hchars
  have hall : ∀ c ∈ cs, isWordChar c = true := fun c hmem => (hcs c hmem).1
  rw [List.cons_append, takeWord?, if_pos hc.1, takeWhile_append_exact hall hrest,
    dropWhile_append_exact hall hrest]

theorem takeWord?_of_stops (h : Stops isWordChar cs) : takeWord? cs = none := by
  cases cs with
  | nil => rfl
  | cons c cs =>
    have hc := stops_cons.mp h
    simp [takeWord?, hc]

theorem IsWord.stops_isSpace (h : IsWord w) : Stops isSpace (w ++ cs) := by
  rw [stops_append h.1]
  intro c hc
  exact isSpace_of_isWordChar (h.2 c (List.mem_of_mem_head? hc)).1

theorem takeCommaWord?_append {before after : List Char} (hbefore : Spaces before)
    (hafter : Spaces after) (hw : IsWord w) (hrest : Stops isWordChar rest) :
    takeCommaWord? (before ++ ',' :: (after ++ (w ++ rest))) = some (w, rest) := by
  have hcomma : Stops isSpace (',' :: (after ++ (w ++ rest))) := stops_cons.mpr (by decide)
  unfold takeCommaWord?
  rw [skipSpaces_append hbefore hcomma]
  simp only
  rw [skipSpaces_append hafter hw.stops_isSpace, takeWord?_append hw hrest]

theorem takeCommaWord?_of_stops (h : Stops (· == ',') (skipSpaces cs)) :
    takeCommaWord? cs = none := by
  unfold takeCommaWord?
  split
  · next hcomma =>
    rw [hcomma, stops_cons] at h
    cases h
  · rfl

theorem takeMoreWords_of_none (h : takeCommaWord? cs = none) : takeMoreWords cs = ([], cs) := by
  rw [takeMoreWords]
  split
  · rfl
  · next hsome => simp [h] at hsome

theorem takeMoreWords_of_some (h : takeCommaWord? cs = some (w, rest)) :
    takeMoreWords cs = (w :: (takeMoreWords rest).1, (takeMoreWords rest).2) := by
  rw [takeMoreWords]
  split
  · next hnone => simp [h] at hnone
  · next hsome =>
    rw [h] at hsome
    cases hsome
    rfl

theorem MoreWords.stops_isWordChar (h : MoreWords ws cs) (hrest : Stops isWordChar rest) :
    Stops isWordChar (cs ++ rest) := by
  cases h with
  | nil => exact hrest
  | @cons before after w cs ws hbefore =>
    cases before with
    | nil => exact stops_cons.mpr (by decide)
    | cons c before =>
      exact stops_cons.mpr (isWordChar_of_mem_gapChars (hbefore.toGap c List.mem_cons_self))

theorem takeMoreWords_append (h : MoreWords ws cs) (hword : Stops isWordChar rest)
    (hcomma : Stops (· == ',') (skipSpaces rest)) : takeMoreWords (cs ++ rest) = (ws, rest) := by
  induction h with
  | nil => exact takeMoreWords_of_none (takeCommaWord?_of_stops hcomma)
  | @cons before after w cs ws hbefore hafter hw hcs ih =>
    have hfirst : takeCommaWord? (before ++ ',' :: (after ++ (w ++ cs)) ++ rest) =
        some (w, cs ++ rest) := by
      have htake := takeCommaWord?_append hbefore hafter hw (hcs.stops_isWordChar hword)
      simpa using htake
    rw [takeMoreWords_of_some hfirst, ih]

theorem takeValues_append (hw : IsWord w) (h : MoreWords ws cs) (hword : Stops isWordChar rest)
    (hcomma : Stops (· == ',') (skipSpaces rest)) :
    takeValues (w ++ (cs ++ rest)) = ((w :: ws).map Value.ofWord, rest) := by
  unfold takeValues
  simp only [takeWord?_append hw (h.stops_isWordChar hword), takeMoreWords_append h hword hcomma]

theorem takeValues_of_stops (h : Stops isWordChar cs) : takeValues cs = ([], cs) := by
  unfold takeValues
  simp only [takeWord?_of_stops h]

theorem takePair_of_colon {afterColon : List Char} (hident : takeIdent? cs = some (key, rest))
    (hcolon : skipSpaces rest = ':' :: afterColon) :
    takePair cs = .ok ((key, (takeValues (skipSpaces afterColon)).1),
      trim (takeValues (skipSpaces afterColon)).2) := by
  unfold takePair
  simp only [hident, hcolon]

theorem takePair_of_stops (hident : takeIdent? cs = some (key, rest))
    (hcolon : Stops (· == ':') (skipSpaces rest)) : takePair cs = .error (skipSpaces rest) := by
  unfold takePair
  simp only [hident]
  split
  · next heq =>
    rw [heq, stops_cons] at hcolon
    cases hcolon
  · rfl

/-- Behind a key and a colon. -/
theorem takePair_append {before : List Char} (hkey : IsIdent key) (hbefore : Spaces before)
    (rest : List Char) :
    takePair (key ++ (before ++ ':' :: rest)) =
      .ok ((key, (takeValues (skipSpaces rest)).1), trim (takeValues (skipSpaces rest)).2) := by
  have hstop : Stops isIdentRest (before ++ ':' :: rest) := by
    cases before with
    | nil => exact stops_cons.mpr (by decide)
    | cons c before =>
      exact stops_cons.mpr (isIdentRest_of_mem_gapChars (hbefore.toGap c List.mem_cons_self))
  have hcolon : Stops isSpace (':' :: rest) := stops_cons.mpr (by decide)
  exact takePair_of_colon (takeIdent?_append hkey hstop) (skipSpaces_append hbefore hcolon)

/-- What stands behind an entry in a row: its gap and the entries after it. -/
structure Behind (e : Entry) (es : List Entry) (gap cs : List Char) : Prop where
  last : es = [] → gap = []
  ended : es ≠ [] → e.EndedBy gap
  rows : Rows es cs

namespace Behind

theorem toGap (h : Behind e es gap cs) : Gap gap := by
  by_cases hes : es = []
  · rw [h.last hes]
    simp [Gap]
  · exact (h.ended hes).toGap

theorem trim_eq (h : Behind e es gap cs) : trim (gap ++ cs) = cs := by
  rw [trim_gap_append h.toGap.isBlank, h.rows.trimmed.trim_eq]

/-- It does not continue an identifier or a word. -/
theorem stops {p : Char → Bool} (h : Behind e es gap cs) (hp : ∀ c ∈ gapChars, p c = false) :
    Stops p (gap ++ cs) := by
  by_cases hes : es = []
  · subst hes
    rw [h.last rfl, h.rows.eq_nil]
    exact stops_nil
  · rw [stops_append (h.ended hes).ne_nil]
    intro c hc
    exact hp c (h.toGap c (List.mem_of_mem_head? hc))

/-- Up to spaces it goes on with a line break or an identifier. -/
theorem stops_skipSpaces {p : Char → Bool} (h : Behind e es gap cs)
    (hbreak : ∀ c, isLineBreak c = true → p c = false)
    (hident : ∀ c, isIdentStart c = true → p c = false) : Stops p (skipSpaces (gap ++ cs)) := by
  refine stops_skipSpaces_append h.toGap hbreak ?_
  by_cases hes : es = []
  · subst hes
    rw [h.rows.eq_nil]
    exact stops_nil
  · obtain ⟨c, cs', rfl, hc⟩ := h.rows.starts hes
    have hspace : isSpace c = false := isSpace_of_isWordChar (of_isIdentStart hc).1
    rw [skipSpaces, (stops_cons.mpr hspace).dropWhile_eq]
    exact stops_cons.mpr (hident c hc)

/-- After a key without values it goes on with a line break. -/
theorem stops_skipSpaces_noValues (h : Behind (.pair (key, [])) es gap cs) :
    Stops isWordChar (skipSpaces (gap ++ cs)) := by
  by_cases hes : es = []
  · subst hes
    rw [h.last rfl, h.rows.eq_nil]
    exact stops_nil
  · obtain ⟨hgap, c, hc, hbreak⟩ := h.ended hes
    clear h
    induction gap with
    | nil => simp at hc
    | cons c' gap ih =>
      obtain ⟨hc', hgap⟩ := List.forall_mem_cons.mp hgap
      rw [List.cons_append, skipSpaces]
      by_cases hspace : isSpace c' = true
      · have hmem : c ∈ gap := by
          rcases List.mem_cons.mp hc with rfl | hmem
          · rw [isSpace_of_isLineBreak hbreak] at hspace
            cases hspace
          · exact hmem
        rw [List.dropWhile_cons_of_pos hspace]
        exact ih hgap hmem
      · rw [List.dropWhile_cons_of_neg hspace]
        exact stops_cons.mpr (isWordChar_of_mem_gapChars hc')

end Behind

theorem exists_of_rows_cons (h : Rows (e :: es) cs) :
    ∃ text gap rest, cs = text ++ (gap ++ rest) ∧ e.Written text ∧ Behind e es gap rest := by
  cases h with
  | cons htext hlast hended hrows => exact ⟨_, _, _, rfl, htext, hlast, hended, hrows⟩

/-! ## Reading rows -/

theorem takePair_rows {pair : List Char × List Value} (h : Rows (.pair pair :: es) cs) :
    ∃ rest, takePair cs = .ok (pair, rest) ∧ Rows es rest := by
  obtain ⟨text, gap, rest, rfl, htext, hbehind⟩ := exists_of_rows_cons h
  refine ⟨rest, ?_, hbehind.rows⟩
  cases htext with
  | @noValues key before hkey hbefore =>
    have htake := takePair_append hkey hbefore (gap ++ rest)
    rw [takeValues_of_stops hbehind.stops_skipSpaces_noValues, trim_skipSpaces,
      hbehind.trim_eq] at htake
    simpa using htake
  | @values key before after w more ws hkey hbefore hafter hw hmore =>
    have hword := hbehind.stops (p := isWordChar) (fun c => isWordChar_of_mem_gapChars)
    have hcomma := hbehind.stops_skipSpaces (p := (· == ',')) (fun c hc => (of_isLineBreak hc).2)
      (fun c hc => beq_false_of_ne (of_isIdentStart hc).2.2)
    have htake := takePair_append hkey hbefore (after ++ (w ++ (more ++ (gap ++ rest))))
    rw [skipSpaces_append hafter hw.stops_isSpace, takeValues_append hw hmore hword hcomma,
      hbehind.trim_eq] at htake
    simpa using htake

/-- A title is no pair: behind it there is no colon. -/
theorem takePair_rows_title (h : Rows (.title title :: es) cs) :
    ∃ rest, takePair cs = .error rest := by
  obtain ⟨text, gap, rest, rfl, htext, hbehind⟩ := exists_of_rows_cons h
  cases htext with
  | title hident =>
    have hstop := hbehind.stops (p := isIdentRest) (fun c => isIdentRest_of_mem_gapChars)
    have hcolon := hbehind.stops_skipSpaces (p := (· == ':')) (fun c hc => (of_isLineBreak hc).1)
      (fun c hc => beq_false_of_ne (of_isIdentStart hc).2.1)
    exact ⟨_, takePair_of_stops (takeIdent?_append hident hstop) hcolon⟩

theorem takePairs_of_error {e : List Char} (h : takePair cs = .error e) :
    takePairs cs = ([], cs) := by
  rw [takePairs]
  split
  · rfl
  · next hok => simp [h] at hok

theorem takePairs_of_ok {pair : List Char × List Value} (h : takePair cs = .ok (pair, rest)) :
    takePairs cs = (pair :: (takePairs rest).1, (takePairs rest).2) := by
  rw [takePairs]
  split
  · next herror => simp [h] at herror
  · next hok =>
    rw [h] at hok
    cases hok
    rfl

/-- The row is empty or begins with a title. -/
def BeginsSection (es : List Entry) : Prop := ∀ pair, es.head? ≠ some (.pair pair)

theorem takePairs_rows {pairs : List (List Char × List Value)} (hlater : BeginsSection later)
    (h : Rows (pairs.map .pair ++ later) cs) :
    ∃ rest, takePairs cs = (pairs, rest) ∧ Rows later rest := by
  induction pairs generalizing cs with
  | nil =>
    refine ⟨cs, ?_, h⟩
    cases later with
    | nil =>
      rw [h.eq_nil]
      exact takePairs_of_error (e := []) rfl
    | cons e later =>
      cases e with
      | title title =>
        obtain ⟨rest, herror⟩ := takePair_rows_title h
        exact takePairs_of_error herror
      | pair pair => exact absurd rfl (hlater pair)
  | cons pair pairs ih =>
    obtain ⟨rest, hpair, hrows⟩ := takePair_rows h
    obtain ⟨last, hpairs, hlast⟩ := ih hrows
    exact ⟨last, by rw [takePairs_of_ok hpair, hpairs], hlast⟩

/-- The first section of a row. White space may stand in front of it and behind the row. -/
theorem takeSection_rows {pairs : List (List Char × List Value)} {before after : List Char}
    (hpairs : pairs ≠ []) (hlater : BeginsSection later) (hbefore : Spaces before)
    (hafter : ∀ c ∈ after, isBlank c = true)
    (h : Rows (.title title :: (pairs.map .pair ++ later)) cs) :
    ∃ rest, takeSection (before ++ (cs ++ after)) = .ok ((title, pairs), rest) ∧
      Rows later rest := by
  obtain ⟨pair, pairs, rfl⟩ := List.exists_cons_of_ne_nil hpairs
  obtain ⟨text, gap, rest, rfl, htext, hbehind⟩ := exists_of_rows_cons h
  cases htext with
  | title hident =>
    obtain ⟨last, hpair, hrows⟩ := takePair_rows hbehind.rows
    obtain ⟨rest', hpairs', hrest⟩ := takePairs_rows hlater hrows
    refine ⟨rest', ?_, hrest⟩
    have hgap : gap ≠ [] := (hbehind.ended (by simp)).ne_nil
    have hstop : Stops isIdentRest (gap ++ (rest ++ after)) := by
      rw [stops_append hgap]
      intro c hc
      exact isIdentRest_of_mem_gapChars (hbehind.toGap c (List.mem_of_mem_head? hc))
    have hspace : Stops isSpace (title ++ (gap ++ (rest ++ after))) := by
      obtain ⟨c, cs, rfl, hc, -⟩ := hident
      exact stops_cons.mpr (isSpace_of_isWordChar (of_isIdentStart hc).1)
    have htrim : trim (gap ++ (rest ++ after)) = rest := by
      rw [trim_gap_append hbehind.toGap.isBlank, trim_append_gap hafter,
        hbehind.rows.trimmed.trim_eq]
    unfold takeSection
    simp only [List.append_assoc, skipSpaces_append hbefore hspace,
      takeIdent?_append hident hstop, htrim, hpair, hpairs']

theorem takeSections_of_error {e : List Char} (h : takeSection cs = .error e) :
    takeSections cs = ([], cs) := by
  rw [takeSections]
  split
  · rfl
  · next hok => simp [h] at hok

theorem takeSections_of_ok {s : List Char × List (List Char × List Value)}
    (h : takeSection cs = .ok (s, rest)) :
    takeSections cs = (s :: (takeSections rest).1, (takeSections rest).2) := by
  rw [takeSections]
  split
  · next herror => simp [h] at herror
  · next hok =>
    rw [h] at hok
    cases hok
    rfl

/-- The entries of sections, one section after the other. -/
def entriesOf (sections : List (List Char × List (List Char × List Value))) : List Entry :=
  sections.flatMap (fun s => .title s.1 :: s.2.map .pair)

variable {sections : List (List Char × List (List Char × List Value))}

theorem entriesOf_cons (s : List Char × List (List Char × List Value)) :
    entriesOf (s :: sections) = .title s.1 :: (s.2.map .pair ++ entriesOf sections) := rfl

theorem entriesOf_ne_nil (h : sections ≠ []) : entriesOf sections ≠ [] := by
  obtain ⟨s, sections, rfl⟩ := List.exists_cons_of_ne_nil h
  simp [entriesOf_cons]

theorem beginsSection_entriesOf : BeginsSection (entriesOf sections) := by
  intro pair
  cases sections with
  | nil => simp [entriesOf]
  | cons s sections => simp [entriesOf_cons]

theorem takeSections_rows (hne : ∀ s ∈ sections, s.2 ≠ []) (h : Rows (entriesOf sections) cs) :
    takeSections cs = (sections, []) := by
  induction sections generalizing cs with
  | nil =>
    rw [h.eq_nil]
    exact takeSections_of_error (e := []) rfl
  | cons s sections ih =>
    obtain ⟨hs, hne⟩ := List.forall_mem_cons.mp hne
    have hnone : Spaces [] := by simp [Spaces]
    have hblank : ∀ c ∈ [], isBlank c = true := by simp
    obtain ⟨rest, hsection, hrows⟩ :=
      takeSection_rows hs beginsSection_entriesOf hnone hblank h
    rw [List.nil_append, List.append_nil] at hsection
    rw [takeSections_of_ok hsection, ih hne hrows]

theorem parseFiltered_rows {before after : List Char} (hsections : sections ≠ [])
    (hne : ∀ s ∈ sections, s.2 ≠ []) (hbefore : Spaces before)
    (hafter : ∀ c ∈ after, isBlank c = true) (h : Rows (entriesOf sections) cs) :
    Document.parseFiltered (before ++ (cs ++ after)) = .ok (Document.ofSections sections) := by
  obtain ⟨s, sections, rfl⟩ := List.exists_cons_of_ne_nil hsections
  obtain ⟨hs, hne⟩ := List.forall_mem_cons.mp hne
  obtain ⟨rest, hsection, hrows⟩ := takeSection_rows hs beginsSection_entriesOf hbefore hafter h
  unfold Document.parseFiltered
  simp only [hsection, takeSections_rows hne hrows]
  rfl

end PolyCalc.Config
