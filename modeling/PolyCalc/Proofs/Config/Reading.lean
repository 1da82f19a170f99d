import PolyCalc.Proofs.Config.Comments
import PolyCalc.Proofs.Config.Entries
import PolyCalc.Proofs.Config.Tables

set_option autoImplicit false

/-! # What the readers of documents take

Each reader takes the written form of what it returns (`exists_of_takePair`,
`exists_of_takeSection`), in a text without white space other than spaces, tabs and line breaks
(`Plain`). Together with the lemmas on reading what is written this says which texts are read, and
as what: exactly those of which what is left without comments is a row of entries in which every
section has a pair, with spaces and tabs in front and white space behind (`Spells`,
`parse_eq_ok_iff`). -/

namespace PolyCalc.Config

open Text

variable {cs rest w key title : List Char} {ws : List (List Char)} {values : List Value}
  {later : List Entry} {sections : List (List Char × List (List Char × List Value))}

/-! ## Plain texts -/

/-- All white space is such as parts entries. -/
def Plain (cs : List Char) : Prop := ∀ c ∈ cs, isBlank c = true → c ∈ gapChars

instance (cs : List Char) : Decidable (Plain cs) :=
  decidable_of_iff' (cs.all (fun c => isBlank c → c ∈ gapChars) = true)
    (by simp only [Plain, List.all_eq_true, decide_eq_true_eq])

theorem Plain.of_append_right {a : List Char} (h : Plain (a ++ rest)) : Plain rest :=
  fun c hc => h c (List.mem_append_right a hc)

theorem Plain.of_append_left {a : List Char} (h : Plain (rest ++ a)) : Plain rest :=
  fun c hc => h c (List.mem_append_left a hc)

theorem Plain.gap (h : Plain cs) (hblank : ∀ c ∈ cs, isBlank c = true) : Gap cs :=
  fun c hc => h c hc (hblank c hc)

/-- Where a text does not end in white space, no white space is at its end. -/
theorem eq_nil_of_stops_reverse {a gap : List Char} (h : Stops isBlank (a ++ gap).reverse)
    (hgap : ∀ c ∈ gap, isBlank c = true) : gap = [] := by
  by_contra hne
  rw [stops_reverse_append hne] at h
  obtain ⟨c, gap', hrev⟩ := List.exists_cons_of_ne_nil (mt List.reverse_eq_nil_iff.mp hne)
  have hmem : c ∈ gap := by
    rw [← List.mem_reverse, hrev]
    exact List.mem_cons_self
  rw [hrev, stops_cons, hgap c hmem] at h
  cases h

/-! ## Words and values -/

theorem exists_eq_skipSpaces (cs : List Char) :
    ∃ before, cs = before ++ skipSpaces cs ∧ Spaces before :=
  ⟨cs.takeWhile isSpace, List.takeWhile_append_dropWhile.symm,
    fun _ hc => List.mem_takeWhile_imp hc⟩

theorem eq_append_of_takeIdent? (h : takeIdent? cs = some (w, rest)) :
    cs = w ++ rest ∧ IsIdent w ∧ Stops isIdentRest rest := by
  cases cs with
  | nil => cases h
  | cons c cs =>
    rw [takeIdent?] at h
    split at h
    · next hc =>
      cases h
      refine ⟨by simp, ⟨c, _, rfl, hc, fun _ hmem => List.mem_takeWhile_imp hmem⟩, ?_⟩
      exact stops_dropWhile isIdentRest cs
    · cases h

theorem eq_append_of_takeWord? (h : takeWord? cs = some (w, rest)) (hplain : Plain cs) :
    cs = w ++ rest ∧ IsWord w ∧ Stops isWordChar rest := by
  cases cs with
  | nil => cases h
  | cons c cs =>
    rw [takeWord?] at h
    split at h
    · next hc =>
      cases h
      have hword : ∀ c' ∈ c :: cs.takeWhile isWordChar, isWordChar c' = true :=
        List.forall_mem_cons.mpr ⟨hc, fun _ hmem => List.mem_takeWhile_imp hmem⟩
      have hsplit : c :: cs = (c :: cs.takeWhile isWordChar) ++ cs.dropWhile isWordChar := by simp
      refine ⟨hsplit, ⟨by simp, ?_⟩, stops_dropWhile isWordChar cs⟩
      intro c' hmem
      refine ⟨hword c' hmem, ?_⟩
      -- White space of the kinds that a plain text has does not belong to words.
      by_contra hblank
      rw [Bool.not_eq_false] at hblank
      rw [hsplit] at hplain
      have hgap := isWordChar_of_mem_gapChars (hplain.of_append_left c' hmem hblank)
      rw [hword c' hmem] at hgap
      cases hgap
    · cases h

theorem stops_of_takeWord? (h : takeWord? cs = none) : Stops isWordChar cs := by
  cases cs with
  | nil => exact stops_nil
  | cons c cs =>
    rw [takeWord?] at h
    split at h
    · cases h
    · next hc => exact stops_cons.mpr (Bool.eq_false_iff.mpr hc)

theorem exists_of_takeCommaWord? (h : takeCommaWord? cs = some (w, rest)) (hplain : Plain cs) :
    ∃ before after, cs = before ++ ',' :: (after ++ (w ++ rest)) ∧ Spaces before ∧
      Spaces after ∧ IsWord w ∧ Stops isWordChar rest := by
  obtain ⟨before, hcs, hbefore⟩ := exists_eq_skipSpaces cs
  unfold takeCommaWord? at h
  split at h
  · next tail htail =>
    obtain ⟨after, htail', hafter⟩ := exists_eq_skipSpaces tail
    rw [htail, htail', List.append_cons, ← List.append_assoc] at hcs
    rw [hcs] at hplain
    obtain ⟨hword, hw, hstop⟩ := eq_append_of_takeWord? h hplain.of_append_right
    exact ⟨before, after, by rw [hcs, hword]; simp, hbefore, hafter, hw, hstop⟩
  · cases h

theorem exists_of_takeMoreWords (h : takeMoreWords cs = (ws, rest)) (hplain : Plain cs)
    (hstop : Stops isWordChar cs) :
    ∃ text, cs = text ++ rest ∧ MoreWords ws text ∧ Stops isWordChar rest := by
  fun_induction takeMoreWords cs generalizing ws with
  | case1 cs hnone =>
    cases h
    exact ⟨[], rfl, .nil, hstop⟩
  | case2 cs w next hsome _ ws' last hrec ih =>
    cases h
    obtain ⟨before, after, rfl, hbefore, hafter, hw, hnext⟩ := exists_of_takeCommaWord? hsome hplain
    have hplain' : Plain next := by
      have hsplit : before ++ ',' :: (after ++ (w ++ next)) =
          (before ++ ',' :: (after ++ w)) ++ next := by simp
      rw [hsplit] at hplain
      exact hplain.of_append_right
    obtain ⟨text, rfl, hmore, hlast⟩ := ih hrec hplain' hnext
    exact ⟨before ++ ',' :: (after ++ (w ++ text)), by simp, .cons hbefore hafter hw hmore, hlast⟩

theorem exists_of_takeValues (h : takeValues cs = (values, rest)) (hplain : Plain cs) :
    (values = [] ∧ rest = cs ∧ Stops isWordChar cs) ∨
      ∃ w ws text, values = (w :: ws).map Value.ofWord ∧ cs = w ++ (text ++ rest) ∧ IsWord w ∧
        MoreWords ws text ∧ Stops isWordChar rest := by
  unfold takeValues at h
  split at h
  · next hnone =>
    cases h
    exact Or.inl ⟨rfl, rfl, stops_of_takeWord? hnone⟩
  · next w next hsome =>
    obtain ⟨rfl, hw, hstop⟩ := eq_append_of_takeWord? hsome hplain
    cases hrec : takeMoreWords next with
    | mk ws last =>
      rw [hrec] at h
      cases h
      obtain ⟨text, rfl, hmore, hlast⟩ := exists_of_takeMoreWords hrec hplain.of_append_right hstop
      exact Or.inr ⟨w, ws, text, rfl, rfl, hw, hmore, hlast⟩

/-! ## Pairs -/

theorem exists_of_takePair_ok (h : takePair cs = .ok ((key, values), rest)) :
    ∃ before afterColon last, cs = key ++ (before ++ ':' :: afterColon) ∧ IsIdent key ∧
      Spaces before ∧ takeValues (skipSpaces afterColon) = (values, last) ∧ rest = trim last := by
  unfold takePair at h
  split at h
  · cases h
  · next key' afterKey hident =>
    obtain ⟨rfl, hkey, -⟩ := eq_append_of_takeIdent? hident
    obtain ⟨before, hafterKey, hbefore⟩ := exists_eq_skipSpaces afterKey
    split at h
    · next afterColon hcolon =>
      rw [hcolon] at hafterKey
      cases h
      exact ⟨before, afterColon, _, by rw [hafterKey], hkey, hbefore, rfl, rfl⟩
    · cases h

theorem endedBy_of_values_ne_nil {gap : List Char} (hvalues : values ≠ []) (hgap : Gap gap)
    (hne : gap ≠ []) : (Entry.pair (key, values)).EndedBy gap := by
  cases values with
  | nil => exact absurd rfl hvalues
  | cons v values => exact ⟨hgap, hne⟩

/-- What stands behind a pair: a gap, and what is left once it is trimmed. -/
theorem exists_gap_trim {front : List Char} (hplain : Plain cs)
    (hend : Stops isBlank (front ++ cs).reverse) :
    ∃ gap, cs = gap ++ trim cs ∧ Gap gap ∧ (trim cs = [] → gap = []) := by
  obtain ⟨gap, trail, hcs, hgap, htrail⟩ := exists_eq_trim cs
  have hnil : trail = [] := by
    rw [hcs, ← List.append_assoc, ← List.append_assoc] at hend
    exact eq_nil_of_stops_reverse hend htrail
  rw [hnil, List.append_nil] at hcs
  refine ⟨gap, hcs, ?_, ?_⟩
  · rw [hcs] at hplain
    exact hplain.of_append_left.gap hgap
  · intro hempty
    rw [hcs, hempty, List.append_nil] at hend
    exact eq_nil_of_stops_reverse hend hgap

/-- Where no word begins, no identifier does. -/
theorem stops_isIdentStart (h : Stops isWordChar cs) : Stops isIdentStart cs := by
  intro c hc
  by_contra hstart
  rw [Bool.not_eq_false] at hstart
  have hword := (of_isIdentStart hstart).1
  rw [h c hc] at hword
  cases hword

/-- A key without values is followed by a line break before the next identifier: on the same line it
    would have been a value. -/
theorem exists_isLineBreak {gap : List Char} (hgap : Gap gap)
    (hstop : Stops isWordChar (skipSpaces (gap ++ rest))) (hstart : ¬ Stops isIdentStart rest) :
    ∃ c ∈ gap, isLineBreak c = true := by
  by_contra hbreak
  push Not at hbreak
  have hspaces : Spaces gap := by
    intro c hc
    rcases mem_gapChars_iff.mp (hgap c hc) with hspace | hline
    · exact hspace
    · exact absurd hline (hbreak c hc)
  have hrest : Stops isSpace rest := by
    obtain ⟨c, cs, rfl, hc⟩ := not_stops_iff.mp hstart
    exact stops_cons.mpr (isSpace_of_isWordChar (of_isIdentStart hc).1)
  rw [skipSpaces_append hspaces hrest] at hstop
  exact hstart (stops_isIdentStart hstop)

/-- A pair is taken in its written form, with the gap behind it. The gap parts it from the next
    entry, if there is one. -/
theorem exists_of_takePair {pair : List Char × List Value} (h : takePair cs = .ok (pair, rest))
    (hplain : Plain cs) (hend : Stops isBlank cs.reverse) :
    ∃ text gap, cs = text ++ (gap ++ rest) ∧ (Entry.pair pair).Written text ∧ Trimmed rest ∧
      (rest = [] → gap = []) ∧ (¬ Stops isIdentStart rest → (Entry.pair pair).EndedBy gap) := by
  obtain ⟨key, values⟩ := pair
  obtain ⟨before, afterColon, last, rfl, hkey, hbefore, hvalues, rfl⟩ := exists_of_takePair_ok h
  obtain ⟨after, hafterColon, hafter⟩ := exists_eq_skipSpaces afterColon
  have hsplit : key ++ (before ++ ':' :: afterColon) = key ++ (before ++ [':']) ++ afterColon := by
    simp
  rw [hsplit] at hplain hend
  have hplain := hplain.of_append_right
  rcases exists_of_takeValues hvalues (hafterColon ▸ hplain).of_append_right with
    ⟨rfl, rfl, hstop⟩ | ⟨w, ws, text, rfl, hcs, hw, hmore, hstop⟩
  -- Without values the gap begins behind the colon.
  · obtain ⟨gap, hgap, hisGap, hempty⟩ := exists_gap_trim hplain hend
    rw [trim_skipSpaces]
    refine ⟨key ++ (before ++ [':']), gap, by rw [← hgap, hsplit], .noValues hkey hbefore,
      trimmed_trim _, hempty, ?_⟩
    intro hstart
    rw [hgap] at hstop
    exact ⟨hisGap, exists_isLineBreak hisGap hstop hstart⟩
  · have hbehind : afterColon = (after ++ (w ++ text)) ++ last := by
      rw [hafterColon, hcs]
      simp
    rw [hbehind] at hplain hend
    rw [← List.append_assoc] at hend
    obtain ⟨gap, hgap, hisGap, hempty⟩ := exists_gap_trim hplain.of_append_right hend
    have hwritten : (Entry.pair (key, (w :: ws).map Value.ofWord)).Written
        (key ++ (before ++ ':' :: (after ++ (w ++ text)))) := .values hkey hbefore hafter hw hmore
    refine ⟨_, gap, ?_, hwritten, trimmed_trim _, hempty, ?_⟩
    · rw [← hgap, hbehind]
      simp
    · intro hstart
      refine endedBy_of_values_ne_nil (by simp) hisGap ?_
      rintro rfl
      rw [hgap, List.nil_append] at hstop
      exact hstart (stops_isIdentStart hstop)

theorem rows_cons_of_head {e : Entry} {es : List Entry} {text gap : List Char}
    (htext : e.Written text) (hlast : rest = [] → gap = [])
    (hended : ¬ Stops isIdentStart rest → e.EndedBy gap)
    (hrest : Rows es rest) : Rows (e :: es) (text ++ (gap ++ rest)) := by
  refine .cons htext ?_ ?_ hrest
  · rintro rfl
    exact hlast hrest.eq_nil
  · intro hne
    exact hended (not_stops_iff.mpr (hrest.starts hne))

/-- The pairs that are taken begin the row, if what is left is one. -/
theorem rows_of_takePairs {pairs : List (List Char × List Value)}
    (h : takePairs cs = (pairs, rest)) (hplain : Plain cs) (htrimmed : Trimmed cs) :
    Plain rest ∧ Trimmed rest ∧
      ∀ later, Rows later rest → Rows (pairs.map .pair ++ later) cs := by
  fun_induction takePairs cs generalizing pairs with
  | case1 cs =>
    cases h
    exact ⟨hplain, htrimmed, fun _ hlater => hlater⟩
  | case2 cs pair next hpair _ pairs' last hrec ih =>
    cases h
    obtain ⟨text, gap, rfl, htext, hnext, hlast, hended⟩ :=
      exists_of_takePair hpair hplain htrimmed.2
    obtain ⟨hplain', htrimmed', hrows⟩ :=
      ih hrec hplain.of_append_right.of_append_right hnext
    refine ⟨hplain', htrimmed', ?_⟩
    intro later hlater
    exact rows_cons_of_head htext hlast hended (hrows later hlater)

/-! ## Sections -/

theorem exists_of_takeSection_ok {pairs : List (List Char × List Value)}
    (h : takeSection cs = .ok ((title, pairs), rest)) :
    ∃ before afterTitle pair next more, cs = before ++ (title ++ afterTitle) ∧ Spaces before ∧
      IsIdent title ∧ Stops isIdentRest afterTitle ∧ takePair (trim afterTitle) = .ok (pair, next) ∧
      takePairs next = (more, rest) ∧ pairs = pair :: more := by
  obtain ⟨before, hcs, hbefore⟩ := exists_eq_skipSpaces cs
  unfold takeSection at h
  split at h
  · cases h
  · next title' afterTitle htitle =>
    obtain ⟨hskip, hident, hstop⟩ := eq_append_of_takeIdent? htitle
    rw [hskip] at hcs
    split at h
    · cases h
    · next pair next hpair =>
      cases hrec : takePairs next with
      | mk more last =>
        rw [hrec] at h
        cases h
        exact ⟨before, afterTitle, pair, next, more, hcs, hbefore, hident, hstop, hpair, hrec, rfl⟩

/-- A section is taken in its written form, which spaces and tabs may stand in front of. -/
theorem exists_of_takeSection {pairs : List (List Char × List Value)}
    (h : takeSection cs = .ok ((title, pairs), rest)) (hplain : Plain cs) :
    pairs ≠ [] ∧ Plain rest ∧ Trimmed rest ∧
      (∃ before after, cs = before ++ (trim cs ++ after) ∧ Spaces before ∧ Gap after) ∧
      ∀ later, Rows later rest → Rows (.title title :: (pairs.map .pair ++ later)) (trim cs) := by
  obtain ⟨before, afterTitle, pair, next, more, rfl, hbefore, hident, hstop, hpair, hrec, rfl⟩ :=
    exists_of_takeSection_ok h
  obtain ⟨gap, after, hafterTitle, hgap, hafter⟩ := exists_eq_trim afterTitle
  have hplainTitle := hplain.of_append_right.of_append_right
  rw [hafterTitle] at hplainTitle
  have hplainTrim := hplainTitle.of_append_right.of_append_left
  obtain ⟨text, gap', hrest, htext, hnext, hlast, hended⟩ :=
    exists_of_takePair hpair hplainTrim (trimmed_trim afterTitle).2
  rw [hrest] at hplainTrim
  obtain ⟨hplain', htrimmed', hrows⟩ :=
    rows_of_takePairs hrec hplainTrim.of_append_right.of_append_right hnext
  -- A gap parts the title from the key, or the title would have gone on.
  have hended' : (Entry.title title).EndedBy gap := by
    refine ⟨hplainTitle.of_append_left.gap hgap, ?_⟩
    rintro rfl
    obtain ⟨c, text', htext', hc⟩ := htext.starts
    rw [hafterTitle, hrest, htext', List.nil_append, List.cons_append, List.cons_append,
      stops_cons, isIdentRest_of_isIdentStart hc] at hstop
    cases hstop
  have hsplit : before ++ (title ++ afterTitle) =
      before ++ (title ++ (gap ++ trim afterTitle) ++ after) := by
    conv_lhs => rw [hafterTitle]
    simp
  have htrimmed : Trimmed (title ++ (gap ++ trim afterTitle)) := by
    refine ⟨?_, ?_⟩
    · obtain ⟨c, title', rfl, hc, -⟩ := hident
      exact stops_cons.mpr (of_isIdentRest (isIdentRest_of_isIdentStart hc)).2
    · rw [← List.append_assoc, stops_reverse_append (by simp [hrest, htext.ne_nil])]
      exact (trimmed_trim afterTitle).2
  have htrim : trim (before ++ (title ++ afterTitle)) = title ++ (gap ++ trim afterTitle) := by
    rw [hsplit, trim_gap_append hbefore.toGap.isBlank, trim_append_gap hafter, htrimmed.trim_eq]
  rw [htrim]
  refine ⟨by simp, hplain', htrimmed', ?_, ?_⟩
  · exact ⟨before, after, hsplit, hbefore, hplainTitle.of_append_right.of_append_right.gap hafter⟩
  · intro later hlater
    rw [hrest]
    exact .cons (.title hident) (by simp) (fun _ => hended')
      (rows_cons_of_head htext hlast hended (hrows later hlater))

theorem rows_of_takeSections (h : takeSections cs = (sections, rest)) (hplain : Plain cs)
    (htrimmed : Trimmed cs) (hrest : trim rest = []) :
    Rows (entriesOf sections) cs ∧ ∀ s ∈ sections, s.2 ≠ [] := by
  fun_induction takeSections cs generalizing sections with
  | case1 cs =>
    cases h
    rw [htrimmed.trim_eq] at hrest
    rw [hrest]
    exact ⟨.nil, by simp⟩
  | case2 cs s next hsection _ sections' last hrec ih =>
    cases h
    obtain ⟨hne, hplain', htrimmed', -, hrows⟩ := exists_of_takeSection hsection hplain
    rw [htrimmed.trim_eq] at hrows
    obtain ⟨hlater, hneLater⟩ := ih hrec hplain' htrimmed'
    exact ⟨hrows _ hlater, List.forall_mem_cons.mpr ⟨hne, hneLater⟩⟩

theorem takeSection_ne_nil {s : List Char × List (List Char × List Value)}
    (h : takeSection cs = .ok (s, rest)) : s.2 ≠ [] := by
  obtain ⟨title, pairs⟩ := s
  obtain ⟨_, _, pair, _, more, -, -, -, -, -, -, rfl⟩ := exists_of_takeSection_ok h
  simp

theorem takeSections_ne_nil (h : takeSections cs = (sections, rest)) :
    ∀ s ∈ sections, s.2 ≠ [] := by
  fun_induction takeSections cs generalizing sections with
  | case1 cs =>
    cases h
    simp
  | case2 cs s next hsection _ sections' last hrec ih =>
    cases h
    exact List.forall_mem_cons.mpr ⟨takeSection_ne_nil hsection, ih hrec⟩

/-! ## Documents -/

/-- What is read from a text, plain or not, has no repetitions and no empty sections. -/
theorem wellFormed_of_parse {text : List Char} {d : Document} (h : Document.parse text = .ok d) :
    d.WellFormed := by
  unfold Document.parse Document.parseFiltered at h
  simp only at h
  split at h
  · cases h
    exact Document.wellFormed_nil
  · split at h
    · cases h
    · next first rest hfirst =>
      split at h
      · cases h
        apply Document.wellFormed_ofSections
        exact List.forall_mem_cons.mpr ⟨takeSection_ne_nil hfirst, takeSections_ne_nil rfl⟩
      · cases h

/-- The text is a row of the entries of the sections, none of which is empty, with spaces and tabs
    in front and white space behind. -/
def Spells (cs : List Char) (sections : List (List Char × List (List Char × List Value))) : Prop :=
  (∀ s ∈ sections, s.2 ≠ []) ∧
    ∃ before rows after, cs = before ++ (rows ++ after) ∧ Spaces before ∧ Gap after ∧
      Rows (entriesOf sections) rows

/-- Without white space there is no text that spells out no sections. -/
theorem Spells.eq_nil_iff (h : Spells cs sections) : sections = [] ↔ trim cs = [] := by
  obtain ⟨-, before, rows, after, rfl, hbefore, hafter, hrows⟩ := h
  rw [trim_gap_append hbefore.toGap.isBlank, trim_append_gap hafter.isBlank, hrows.trimmed.trim_eq]
  constructor
  · rintro rfl
    exact hrows.eq_nil
  · rintro rfl
    by_contra hne
    obtain ⟨c, cs', hcs, -⟩ := hrows.starts (entriesOf_ne_nil hne)
    cases hcs

/-- A plain text is read exactly if it is spelled out of sections, and as the document of these. -/
theorem parseFiltered_eq_ok_iff (hplain : Plain cs) {d : Document} :
    Document.parseFiltered cs = .ok d ↔
      ∃ sections, sections ≠ [] ∧ Spells cs sections ∧ d = Document.ofSections sections := by
  constructor
  · intro h
    unfold Document.parseFiltered at h
    split at h
    · cases h
    · next first rest hfirst =>
      obtain ⟨title, pairs⟩ := first
      obtain ⟨hne, hplain', htrimmed', ⟨before, after, hcs, hbefore, hafter⟩, hrows⟩ :=
        exists_of_takeSection hfirst hplain
      cases hrec : takeSections rest with
      | mk sections last =>
        simp only [hrec] at h
        split at h
        · next hlast =>
          cases h
          obtain ⟨hlater, hneLater⟩ :=
            rows_of_takeSections hrec hplain' htrimmed' (List.isEmpty_iff.mp hlast)
          refine ⟨(title, pairs) :: sections, by simp, ⟨?_, ?_⟩, rfl⟩
          · exact List.forall_mem_cons.mpr ⟨hne, hneLater⟩
          · exact ⟨before, trim cs, after, hcs, hbefore, hafter, hrows _ hlater⟩
        · cases h
  · rintro ⟨sections, hsections, ⟨hne, before, rows, after, rfl, hbefore, hafter, hrows⟩, rfl⟩
    exact parseFiltered_rows hsections hne hbefore hafter.isBlank hrows

theorem plain_dropComments {text : List Char} (h : Plain text) : Plain (dropComments text) := by
  intro c hc hblank
  rcases mem_of_mem_dropComments hc with rfl | hc
  · simp [gapChars]
  · exact h c hc hblank

/-- The same for texts with comments. From a text in which nothing counts no sections are read. -/
theorem parse_eq_ok_iff {text : List Char} (hplain : Plain text) {d : Document} :
    Document.parse text = .ok d ↔
      ∃ sections, Spells (dropComments text) sections ∧ d = Document.ofSections sections := by
  unfold Document.parse
  simp only
  by_cases hempty : trim (dropComments text) = []
  · rw [if_pos (List.isEmpty_iff.mpr hempty)]
    constructor
    · rintro ⟨⟩
      have hcs : dropComments text = [] := by
        rw [dropComments_eq, trim_dropComments_eq_nil_iff.mp hempty, List.intercalate_nil]
      have hspells : Spells (dropComments text) [] :=
        ⟨by simp, [], [], [], hcs, by simp [Spaces], by simp [Gap], .nil⟩
      exact ⟨[], hspells, rfl⟩
    · rintro ⟨sections, hspells, rfl⟩
      rw [hspells.eq_nil_iff.mpr hempty]
      rfl
  · rw [if_neg (mt List.isEmpty_iff.mp hempty), parseFiltered_eq_ok_iff (plain_dropComments hplain)]
    constructor
    · rintro ⟨sections, -, hspells, rfl⟩
      exact ⟨sections, hspells, rfl⟩
    · rintro ⟨sections, hspells, rfl⟩
      exact ⟨sections, mt hspells.eq_nil_iff.mp hempty, hspells, rfl⟩

end PolyCalc.Config
