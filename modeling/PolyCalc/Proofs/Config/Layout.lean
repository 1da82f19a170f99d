import PolyCalc.Config.Settings
import PolyCalc.Proofs.Config.Comments
import PolyCalc.Proofs.Config.Entries
import PolyCalc.Proofs.Config.Tables
import PolyCalc.Proofs.Text.Numeral

set_option autoImplicit false

/-! # Documents that are written line by line

A document is written with a line for each title and each key (`Entry.line`), in the order of its
entries. Lines may be indented, may end in a carriage return and a line feed or in a line feed
alone, and blank lines and comments may stand anywhere between them (`Layout`). Whatever the
layout, the text is read as the document (`parse_layout`), provided that its titles and keys are
identifiers and each value has a written form that no other value has (`Value.Writable`).

Of a layout, the lines that count are those of the entries (`Layout.forall₂_holds`), and these
lines are a row of entries (`exists_rows_of_lines`). -/

namespace PolyCalc.Config

open Text

variable {e : Entry} {es : List Entry} {v : Value} {vs : List Value} {d : Document}
  {ending rest text w : List Char} {lines : List (List Char)}

/-! ## Values that can be written -/

/-- The values whose written form is a word that is read as the value. Floating-point numbers are
    left out; a string must not have the form of another value. -/
def Value.Writable : Value → Prop
  | .string w => w ≠ [] ∧ (∀ c ∈ w, isBlank c = false ∧ c ≠ ',' ∧ c ≠ ';') ∧
      readInteger? w = none ∧ readFloat? w = none ∧ readBoolean? w = none
  | .float _ => False
  | .integer _ => True
  | .boolean _ => True

instance : (v : Value) → Decidable v.Writable
  | .string w =>
    decidable_of_iff' (w ≠ [] ∧ w.all (fun c => isBlank c = false ∧ c ≠ ',' ∧ c ≠ ';') = true ∧
      readInteger? w = none ∧ readFloat? w = none ∧ readBoolean? w = none)
      (by simp [Value.Writable])
  | .float _ => isFalse id
  | .integer _ => isTrue trivial
  | .boolean _ => isTrue trivial

theorem isIdentRest_of_isDigit {c : Char} (h : c.isDigit = true) : isIdentRest c = true := by
  simp [isIdentRest, Char.isAlphanum, h]

theorem readDigits?_writeNat (n : Nat) : readDigits? (writeNat n) = some n := by
  have hne : writeNat n ≠ [] := Nat.toDigits_ne_nil
  have hdigits : ∀ c ∈ writeNat n, c.isDigit = true :=
    fun c => Nat.isDigit_of_mem_toDigits (by decide) (by decide)
  have hvalue : Nat.ofDigitChars 10 (writeNat n) 0 = n :=
    Nat.ofDigitChars_toDigits (by decide) (by decide)
  simpa [readDigits?, hne, hvalue] using hdigits

theorem takeSign_writeNat (n : Nat) : takeSign (writeNat n) = (false, writeNat n) := by
  have hdigits : ∀ c ∈ writeNat n, c.isDigit = true :=
    fun c => Nat.isDigit_of_mem_toDigits (by decide) (by decide)
  unfold takeSign
  split
  · next heq =>
    have hminus := hdigits '-' (by simp [heq])
    cases hminus
  · next heq =>
    have hplus := hdigits '+' (by simp [heq])
    cases hplus
  · rfl

theorem readInteger?_writeInt (i : Int64) : readInteger? (writeInt i.toInt) = some i := by
  have hrange : Int64.minValue.toInt ≤ i.toInt ∧ i.toInt ≤ Int64.maxValue.toInt :=
    ⟨i.minValue_le_toInt, i.toInt_le⟩
  unfold readInteger? writeInt
  by_cases hneg : i.toInt < 0
  · have habs : -(i.toInt.natAbs : Int) = i.toInt := by omega
    rw [if_pos hneg]
    simp only [takeSign, readDigits?_writeNat, if_true, habs, if_pos hrange, Int64.ofInt_toInt]
  · have habs : (i.toInt.natAbs : Int) = i.toInt := by omega
    rw [if_neg hneg]
    simp only [takeSign_writeNat, readDigits?_writeNat, Bool.false_eq_true, if_false, habs,
      if_pos hrange, Int64.ofInt_toInt]

/-- A value is read back from its written form. -/
theorem Value.ofWord_render (h : v.Writable) : Value.ofWord v.render = v := by
  cases v with
  | string w =>
    obtain ⟨-, -, hinteger, hfloat, hboolean⟩ := h
    simp only [Value.render, Value.ofWord, hinteger, hfloat, hboolean]
  | float x => cases h
  | integer i => simp only [Value.render, Value.ofWord, readInteger?_writeInt]
  | boolean b => cases b <;> decide

theorem isWord_of_isIdentRest (hne : w ≠ []) (h : ∀ c ∈ w, isIdentRest c = true) : IsWord w :=
  ⟨hne, fun c hc => of_isIdentRest (h c hc)⟩

theorem isWord_writeInt (i : Int) : IsWord (writeInt i) := by
  have hdigits : IsWord (writeNat i.natAbs) := isWord_of_isIdentRest Nat.toDigits_ne_nil
    fun c hc => isIdentRest_of_isDigit (Nat.isDigit_of_mem_toDigits (by decide) (by decide) hc)
  unfold writeInt
  split
  · exact ⟨by simp, List.forall_mem_cons.mpr ⟨by decide, hdigits.2⟩⟩
  · exact hdigits

theorem isWordChar_of_not_isBlank {c : Char} (h : isBlank c = false) (hcomma : c ≠ ',')
    (hsemicolon : c ≠ ';') : isWordChar c = true := by
  have hgap : c ∉ gapChars := by
    intro hmem
    rw [isBlank_of_mem_gapChars hmem] at h
    cases h
  simp only [gapChars, List.mem_cons, List.not_mem_nil, or_false, not_or] at hgap
  simp [isWordChar, hcomma, hsemicolon, hgap]

theorem Value.isWord_render (h : v.Writable) : IsWord v.render := by
  cases v with
  | string w =>
    obtain ⟨hne, hchars, -⟩ := h
    refine ⟨hne, ?_⟩
    intro c hc
    obtain ⟨hblank, hcomma, hsemicolon⟩ := hchars c hc
    exact ⟨isWordChar_of_not_isBlank hblank hcomma hsemicolon, hblank⟩
  | float x => cases h
  | integer i => exact isWord_writeInt i.toInt
  | boolean b =>
    cases b
    · exact isWord_of_isIdentRest (by decide) (List.all_eq_true.mp (by decide))
    · exact isWord_of_isIdentRest (by decide) (List.all_eq_true.mp (by decide))

/-! ## The line of an entry -/

/-- A title, or a key, a colon and the values with commas between them. -/
def Entry.line : Entry → List Char
  | .title t => t
  | .pair (key, []) => key ++ [':']
  | .pair (key, v :: vs) => key ++ ':' :: ' ' :: renderValues (v :: vs)

/-- Titles and keys are identifiers, and the values can be written. -/
def Entry.Writable : Entry → Prop
  | .title t => IsIdent t
  | .pair (key, values) => IsIdent key ∧ ∀ v ∈ values, v.Writable

theorem exists_moreWords (h : ∀ v ∈ vs, v.Writable) (w : List Char) :
    ∃ cs, [',', ' '].intercalate (w :: vs.map Value.render) = w ++ cs ∧
      MoreWords (vs.map Value.render) cs := by
  induction vs generalizing w with
  | nil => exact ⟨[], by simp, .nil⟩
  | cons v vs ih =>
    obtain ⟨hv, hvs⟩ := List.forall_mem_cons.mp h
    obtain ⟨cs, hcs, hmore⟩ := ih hvs v.render
    refine ⟨[] ++ ',' :: ([' '] ++ (v.render ++ cs)), ?_, ?_⟩
    · rw [List.map_cons, List.intercalate_cons_cons, hcs]
      simp
    · exact .cons (by simp [Spaces]) (by simp [Spaces, isSpace]) (Value.isWord_render hv) hmore

theorem map_ofWord_render (h : ∀ v ∈ vs, v.Writable) :
    (vs.map Value.render).map Value.ofWord = vs := by
  rw [List.map_map]
  refine (List.map_congr_left ?_).trans (List.map_id vs)
  intro v hv
  exact Value.ofWord_render (h v hv)

theorem Entry.written_line (h : e.Writable) : e.Written e.line := by
  cases e with
  | title t => exact .title h
  | pair pair =>
    obtain ⟨key, values⟩ := pair
    obtain ⟨hkey, hvalues⟩ := h
    cases values with
    | nil =>
      have hnone : Spaces [] := by simp [Spaces]
      exact .noValues hkey hnone
    | cons v vs =>
      obtain ⟨cs, hcs, hmore⟩ := exists_moreWords (List.forall_mem_cons.mp hvalues).2 v.render
      have hv := Value.isWord_render (hvalues v List.mem_cons_self)
      have hnone : Spaces [] := by simp [Spaces]
      have hspace : Spaces [' '] := by simp [Spaces, isSpace]
      have hwritten := Written.values hkey hnone hspace hv hmore
      rw [← List.map_cons, map_ofWord_render hvalues] at hwritten
      rw [Entry.line, renderValues, List.map_cons, hcs]
      exact hwritten

/-! ### Line breaks -/

/-- There is no line break in the text. -/
def Unbroken (cs : List Char) : Prop := ∀ c ∈ cs, isLineBreak c = false

theorem unbroken_append {a b : List Char} : Unbroken (a ++ b) ↔ Unbroken a ∧ Unbroken b :=
  List.forall_mem_append

theorem unbroken_cons {c : Char} {cs : List Char} :
    Unbroken (c :: cs) ↔ isLineBreak c = false ∧ Unbroken cs := List.forall_mem_cons

theorem isLineBreak_of_isWordChar {c : Char} (h : isWordChar c = true) : isLineBreak c = false := by
  rw [← Bool.not_eq_true]
  intro hbreak
  rw [isWordChar_of_mem_gapChars (mem_gapChars_iff.mpr (Or.inr hbreak))] at h
  cases h

theorem Spaces.unbroken {cs : List Char} (h : Spaces cs) : Unbroken cs := by
  intro c hc
  have hspace := h c hc
  simp only [isSpace, Bool.or_eq_true, beq_iff_eq] at hspace
  rcases hspace with rfl | rfl
  · decide
  · decide

theorem IsWord.unbroken (h : IsWord w) : Unbroken w :=
  fun c hc => isLineBreak_of_isWordChar (h.2 c hc).1

theorem IsIdent.unbroken (h : IsIdent w) : Unbroken w :=
  fun c hc => isLineBreak_of_isWordChar (of_isIdentRest (h.isIdentRest c hc)).1

theorem MoreWords.unbroken {ws : List (List Char)} {cs : List Char} (h : MoreWords ws cs) :
    Unbroken cs := by
  induction h with
  | nil => simp [Unbroken]
  | cons hbefore hafter hw _ ih =>
    simp only [unbroken_append, unbroken_cons]
    exact ⟨hbefore.unbroken, by decide, hafter.unbroken, hw.unbroken, ih⟩

theorem Entry.Written.unbroken (h : e.Written text) : Unbroken text := by
  cases h with
  | title hident => exact hident.unbroken
  | noValues hkey hbefore =>
    simp only [unbroken_append, unbroken_cons]
    exact ⟨hkey.unbroken, hbefore.unbroken, by decide, by simp [Unbroken]⟩
  | values hkey hbefore hafter hw hmore =>
    simp only [unbroken_append, unbroken_cons]
    exact ⟨hkey.unbroken, hbefore.unbroken, by decide, hafter.unbroken, hw.unbroken,
      hmore.unbroken⟩

/-! ## Lines that count -/

/-- An indented line that holds the entry. -/
def Holds (line : List Char) (e : Entry) : Prop :=
  ∃ before text after, line = before ++ (text ++ after) ∧ Spaces before ∧ e.Written text ∧
    Spaces after

theorem Holds.unbroken {line : List Char} (h : Holds line e) : Unbroken line := by
  obtain ⟨before, text, after, rfl, hbefore, htext, hafter⟩ := h
  simp only [unbroken_append]
  exact ⟨hbefore.unbroken, htext.unbroken, hafter.unbroken⟩

theorem Holds.isIgnored {line : List Char} (h : Holds line e) : isIgnored line = false := by
  obtain ⟨before, text, after, rfl, hbefore, htext, hafter⟩ := h
  obtain ⟨c, cs, hcs, hc⟩ := htext.starts
  have hstart : Stops isBlank text := by
    rw [hcs]
    exact stops_cons.mpr (of_isIdentRest (isIdentRest_of_isIdentStart hc)).2
  have htrimmed : Trimmed text := ⟨hstart, htext.stops_reverse⟩
  have htrim : trim (before ++ (text ++ after)) = c :: cs := by
    rw [trim_gap_append hbefore.toGap.isBlank, trim_append_gap hafter.toGap.isBlank,
      htrimmed.trim_eq, hcs]
  exact isIgnored_of_isIdentStart htrim hc

/-- Lines that hold entries are a row of them. -/
theorem exists_rows_of_lines {lines : List (List Char)} (h : List.Forall₂ Holds lines es)
    (hes : es ≠ []) :
    ∃ before rows after, ['\n'].intercalate lines = before ++ (rows ++ after) ∧ Spaces before ∧
      Spaces after ∧ Rows es rows := by
  induction h with
  | nil => exact absurd rfl hes
  | @cons line e lines es hline hlines ih =>
    obtain ⟨before, text, after, rfl, hbefore, htext, hafter⟩ := hline
    have hsingle : Rows [e] text := by
      have hrows : Rows [e] (text ++ ([] ++ [])) := .cons htext (by simp) (by simp) .nil
      simpa using hrows
    by_cases hempty : es = []
    · subst hempty
      rw [List.forall₂_nil_right_iff.mp hlines, List.intercalate_singleton]
      exact ⟨before, text, after, rfl, hbefore, hafter, hsingle⟩
    · obtain ⟨before', rows, after', hlater, hbefore', hafter', hrows⟩ := ih hempty
      have hne : lines ≠ [] := by
        rintro rfl
        exact hempty (List.forall₂_nil_left_iff.mp hlines)
      have hjoined := hsingle.append hrows (by simp) hempty hafter.toGap hbefore'.toGap
      rw [List.intercalate_cons_of_ne_nil hne, hlater]
      exact ⟨before, _, after', by simp, hbefore, hafter', hjoined⟩

/-! ## Layouts -/

/-- A blank line, or a comment. -/
def Ignorable (line : List Char) : Prop :=
  (∀ c ∈ line, isBlank c = true) ∨
    ∃ before mark rest, line = before ++ (mark ++ rest) ∧ (∀ c ∈ before, isBlank c = true) ∧
      mark ∈ commentMarks

/-- What may end a line: a line feed, perhaps behind a carriage return, or the end of the text. -/
def Ends (ending rest : List Char) : Prop :=
  ending = ['\n'] ∨ ending = ['\r', '\n'] ∨ ending = [] ∧ rest = []

/-- The texts in which the entries are written line by line. -/
inductive Layout : List Entry → List Char → Prop
  | nil : Layout [] []
  | ignored {es : List Entry} {line ending rest : List Char} :
    '\n' ∉ line → Ignorable line → Ends ending rest → Layout es rest →
    Layout es (line ++ (ending ++ rest))
  | entry {e : Entry} {es : List Entry} {before after ending rest : List Char} :
    Spaces before → Spaces after → Ends ending rest → Layout es rest →
    Layout (e :: es) ((before ++ (e.line ++ after)) ++ (ending ++ rest))

theorem Ignorable.isIgnored {line : List Char} (h : Ignorable line) : isIgnored line = true := by
  rcases h with h | ⟨before, mark, rest, rfl, hbefore, hmark⟩
  · exact isIgnored_of_blank h
  · exact isIgnored_comment hbefore hmark

/-- One more line at the beginning of a text counts, up to a carriage return, or changes nothing. -/
theorem exists_keptLines_line {line : List Char} (hline : '\n' ∉ line) (h : Ends ending rest) :
    ∃ line', (line' = line ∨ line' = dropFinal '\r' line) ∧
      keptLines (line ++ (ending ++ rest)) =
        (if isIgnored line then [] else [line']) ++ keptLines rest := by
  rcases h with rfl | rfl | ⟨rfl, rfl⟩
  · exact ⟨_, Or.inr rfl, keptLines_cons hline rest⟩
  · have hnotMem : '\n' ∉ line ++ ['\r'] := by simp [hline]
    have hdrop : dropFinal '\r' (line ++ ['\r']) = line := by simp [dropFinal]
    have hlines := keptLines_cons hnotMem rest
    rw [← isIgnored_dropFinal, hdrop, List.append_assoc] at hlines
    exact ⟨line, Or.inl rfl, hlines⟩
  · refine ⟨line, Or.inl rfl, ?_⟩
    rw [List.append_nil, List.append_nil, keptLines_of_notMem hline,
      keptLines_of_notMem List.not_mem_nil]
    simp [isIgnored_of_blank]

theorem Unbroken.notMem {cs : List Char} (h : Unbroken cs) : '\n' ∉ cs := by
  intro hmem
  cases h _ hmem

theorem Unbroken.dropFinal_eq {cs : List Char} (h : Unbroken cs) : dropFinal '\r' cs = cs := by
  rcases exists_eq_dropFinal '\r' cs with heq | heq
  · exact heq
  · have hbreak := h '\r' (by rw [heq]; simp)
    cases hbreak

/-- The lines of a layout that count hold the entries. -/
theorem Layout.forall₂_holds (h : Layout es text) (hw : ∀ e ∈ es, e.Writable) :
    List.Forall₂ Holds (keptLines text) es := by
  induction h with
  | nil =>
    rw [keptLines_of_notMem List.not_mem_nil]
    simp [isIgnored_of_blank]
  | ignored hline hignorable hend _ ih =>
    obtain ⟨line', -, hlines⟩ := exists_keptLines_line hline hend
    rw [hlines, hignorable.isIgnored]
    exact ih hw
  | @entry e es before after ending rest hbefore hafter hend _ ih =>
    obtain ⟨he, hes⟩ := List.forall_mem_cons.mp hw
    have hholds : Holds (before ++ (e.line ++ after)) e :=
      ⟨before, e.line, after, rfl, hbefore, Entry.written_line he, hafter⟩
    obtain ⟨line', hline', hlines⟩ := exists_keptLines_line hholds.unbroken.notMem hend
    rw [hholds.unbroken.dropFinal_eq, or_self] at hline'
    rw [hlines, hline', hholds.isIgnored]
    exact .cons hholds (ih hes)

/-! ## Documents -/

instance : (e : Entry) → Decidable e.Writable
  | .title t => inferInstanceAs (Decidable (IsIdent t))
  | .pair (key, values) =>
    inferInstanceAs (Decidable (IsIdent key ∧ ∀ v ∈ values, v.Writable))

/-- All titles, keys and values of the document can be written. -/
def Document.Writable (d : Document) : Prop := ∀ e ∈ entriesOf d, e.Writable

instance (d : Document) : Decidable d.Writable :=
  inferInstanceAs (Decidable (∀ e ∈ entriesOf d, e.Writable))

/-- A document that is written line by line is read as itself, whatever the layout. This holds of
    every order of its sections and keys, since a document is a map with its entries in some order. -/
theorem parse_layout (hd : d.WellFormed) (hw : d.Writable) (h : Layout (entriesOf d) text) :
    Document.parse text = .ok d := by
  have hlines := h.forall₂_holds hw
  unfold Document.parse
  by_cases hempty : d = []
  · subst hempty
    have hkept : keptLines text = [] := List.forall₂_nil_right_iff.mp hlines
    simp [trim_dropComments_eq_nil_iff.mpr hkept]
  · have hentries : entriesOf d ≠ [] := entriesOf_ne_nil hempty
    have hkept : trim (dropComments text) ≠ [] := by
      rw [Ne, trim_dropComments_eq_nil_iff]
      intro hnil
      rw [hnil] at hlines
      exact hentries (List.forall₂_nil_left_iff.mp hlines)
    obtain ⟨before, rows, after, hcs, hbefore, hafter, hrows⟩ :=
      exists_rows_of_lines hlines hentries
    have hparse := parseFiltered_rows hempty (fun s hs => hd.nonempty s.1 s.2 hs) hbefore
      hafter.toGap.isBlank hrows
    rw [← hcs, ← dropComments_eq, Document.ofSections_eq_self hd] at hparse
    simp [hkept, hparse]

/-- Line feeds alone and behind carriage returns, comments, marks of comments within values, a key
    without values before a title, and no line feed at the end. -/
theorem parse_layout_mixed :
    Document.parse
        "# on\r\nlogging\r\n\n\tfiles: a:b, c#d\n  levels:\r\n //x\nlimits\n low: -7, true".toList =
      .ok [("logging".toList, [("files".toList, [.string "a:b".toList, .string "c#d".toList]),
          ("levels".toList, [])]),
        ("limits".toList, [("low".toList, [.integer (-7), .boolean true])])] := by
  have hcomment : Ignorable "# on".toList :=
    Or.inr ⟨[], ['#'], " on".toList, rfl, by simp, by decide⟩
  have hspace : Spaces [' '] := by decide
  have hcomment' : Ignorable " //x".toList :=
    Or.inr ⟨[' '], ['/', '/'], "x".toList, rfl, hspace.toGap.isBlank, by decide⟩
  have hblank : Ignorable [] := Or.inl (by simp)
  have hnone : Spaces [] := by simp [Spaces]
  have htab : Spaces ['\t'] := by decide
  have hspaces : Spaces [' ', ' '] := by decide
  have hlf : ∀ rest, Ends ['\n'] rest := fun _ => Or.inl rfl
  have hcrlf : ∀ rest, Ends ['\r', '\n'] rest := fun _ => Or.inr (Or.inl rfl)
  have hend : Ends [] [] := Or.inr (Or.inr ⟨rfl, rfl⟩)
  exact parse_layout (by decide) (by decide) <|
    .ignored (by decide) hcomment (hcrlf _) <| .entry hnone hnone (hcrlf _) <|
    .ignored (by decide) hblank (hlf _) <| .entry htab hnone (hlf _) <|
    .entry hspaces hnone (hcrlf _) <| .ignored (by decide) hcomment' (hlf _) <|
    .entry hnone hnone (hlf _) <| .entry hspace hnone hend .nil

end PolyCalc.Config
