import PolyCalc.Proofs.Config.Reading
import PolyCalc.Proofs.Config.Tables

set_option autoImplicit false

/-! # Documents one behind the other

Two texts that can be read can also be read together, with a line feed between them, and give the
document of both, in which the second one counts where both have a key (`parse_append`). Nothing
marks the end of the last section of the first text. It ends because a line feed stands behind its
last values, and because the second text begins with a title (`Spells.append`). -/

namespace PolyCalc.Config

open Text

variable {a b : List Char} {m m₁ m₂ : Document}
  {sections later : List (List Char × List (List Char × List Value))}

/-! ## Texts that spell out sections -/

theorem entriesOf_append : entriesOf (sections ++ later) = entriesOf sections ++ entriesOf later :=
  List.flatMap_append

/-- White space behind the last entry may be left out. -/
theorem Spells.of_append_gap {gap : List Char} (hsections : sections ≠ [])
    (hgap : ∀ c ∈ gap, isBlank c = true) (h : Spells (a ++ gap) sections) : Spells a sections := by
  obtain ⟨hne, before, rows, after, hcs, hbefore, hafter, hrows⟩ := h
  obtain ⟨c, rows', hstart, -⟩ := hrows.starts (entriesOf_ne_nil hsections)
  have hend : Stops isBlank (before ++ rows).reverse := by
    rw [stops_reverse_append (by simp [hstart])]
    exact hrows.trimmed.2
  rw [← List.append_assoc] at hcs
  obtain ⟨after', ha, rfl⟩ := exists_of_append_gap_eq hcs hgap hend
  refine ⟨hne, before, rows, after', by rw [ha, List.append_assoc], hbefore, ?_, hrows⟩
  exact fun c hc => hafter c (List.mem_append_left gap hc)

/-- The sections of both texts, in a row. -/
theorem Spells.append (ha : Spells a sections) (hb : Spells b later) (hsections : sections ≠ [])
    (hlater : later ≠ []) : Spells (a ++ '\n' :: b) (sections ++ later) := by
  obtain ⟨hne, before, rows, after, rfl, hbefore, hafter, hrows⟩ := ha
  obtain ⟨hne', before', rows', after', rfl, hbefore', hafter', hrows'⟩ := hb
  have hjoined := hrows.append hrows' (entriesOf_ne_nil hsections) (entriesOf_ne_nil hlater) hafter
    hbefore'.toGap
  rw [← entriesOf_append] at hjoined
  refine ⟨List.forall_mem_append.mpr ⟨hne, hne'⟩, before, _, after', ?_, hbefore, hafter', hjoined⟩
  simp

/-- Comments do not matter, nor does a carriage return at the end of the first text. -/
theorem Spells.dropComments_append (ha : Spells (dropComments a) sections)
    (hb : Spells (dropComments b) later) :
    Spells (dropComments (a ++ '\n' :: b)) (sections ++ later) := by
  obtain ⟨lines, hjoined, hlines⟩ := exists_keptLines_append a b
  obtain ⟨gap, hgap, hfirst⟩ : ∃ gap, (∀ c ∈ gap, isBlank c = true) ∧
      dropComments a = ['\n'].intercalate lines ++ gap := by
    rcases hlines with hlines | ⟨init, last, rfl, hlines⟩
    · exact ⟨[], by simp, by rw [dropComments_eq, hlines, List.append_nil]⟩
    · have hblank : ∀ c ∈ ['\r'], isBlank c = true := List.forall_mem_singleton.mpr (by decide)
      exact ⟨['\r'], hblank, by rw [dropComments_eq, hlines, intercalate_append_last]⟩
  have hnil : sections = [] ↔ keptLines a = [] :=
    ha.eq_nil_iff.trans trim_dropComments_eq_nil_iff
  have hnil' : later = [] ↔ keptLines b = [] :=
    hb.eq_nil_iff.trans trim_dropComments_eq_nil_iff
  by_cases hempty : sections = []
  · have hlines : lines = [] := by
      rcases hlines with hlines | ⟨init, last, -, hlines⟩
      · rw [← hlines, hnil.mp hempty]
      · simp [hnil.mp hempty] at hlines
    rw [dropComments_eq, hjoined, hlines, hempty]
    exact hb
  · rw [hfirst] at ha
    have hfront := ha.of_append_gap hempty hgap
    by_cases hempty' : later = []
    · rw [dropComments_eq, hjoined, hnil'.mp hempty', hempty', List.append_nil, List.append_nil]
      exact hfront
    · have hne : lines ≠ [] := by
        rintro rfl
        exact hempty (hfront.eq_nil_iff.mpr rfl)
      rw [dropComments_eq, hjoined, intercalate_append hne (mt hnil'.mpr hempty'),
        ← dropComments_eq, List.append_assoc]
      exact hfront.append hb hempty hempty'

/-! ## Documents -/

/-- The document has the sections of two documents, with the keys of both. A key of both has the
    values of the second one. -/
structure Document.Merges (m m₁ m₂ : Document) : Prop where
  wellFormed : m.WellFormed
  titles : ∀ title, title ∈ m.titles ↔ title ∈ m₁.titles ∨ title ∈ m₂.titles
  values : ∀ title key, m.values? title key = (m₂.values? title key).or (m₁.values? title key)

theorem Document.merges_ofSections (hne : ∀ s ∈ sections ++ later, s.2 ≠ []) :
    (ofSections (sections ++ later)).Merges (ofSections sections) (ofSections later) where
  wellFormed := wellFormed_ofSections hne
  titles := by
    intro title
    rw [mem_titles_ofSections, mem_titles_ofSections, mem_titles_ofSections, List.map_append,
      List.mem_append]
  values := fun _ _ => values?_ofSections_append

/-- Two texts with a line feed between them are read as the documents of both, of which the second
    one counts. -/
theorem parse_append (hplain : Plain a) (hplain' : Plain b) (ha : Document.parse a = .ok m₁)
    (hb : Document.parse b = .ok m₂) :
    ∃ m, Document.parse (a ++ '\n' :: b) = .ok m ∧ m.Merges m₁ m₂ := by
  obtain ⟨sections, hsections, rfl⟩ := (parse_eq_ok_iff hplain).mp ha
  obtain ⟨later, hlater, rfl⟩ := (parse_eq_ok_iff hplain').mp hb
  have hjoined := hsections.dropComments_append hlater
  have hplainJoined : Plain (a ++ '\n' :: b) := by
    refine List.forall_mem_append.mpr ⟨hplain, List.forall_mem_cons.mpr ⟨?_, hplain'⟩⟩
    simp [gapChars]
  refine ⟨_, (parse_eq_ok_iff hplainJoined).mpr ⟨_, hjoined, rfl⟩, ?_⟩
  exact Document.merges_ofSections hjoined.1

/-- Several pairs on a line, and a first text that ends in a key without values and a carriage
    return. -/
theorem parse_append_unfinished :
    ∃ m, Document.parse
        ("a x:1 y : 2 , z w: \r".toList ++ '\n' :: "# later\n\ta y:b:3 v:\nb x:".toList) = .ok m ∧
      m.Merges
        [("a".toList, [("x".toList, [.integer 1]), ("y".toList, [.integer 2, .string "z".toList]),
          ("w".toList, [])])]
        [("a".toList, [("y".toList, [.string "b:3".toList]), ("v".toList, [])]),
          ("b".toList, [("x".toList, [])])] := by
  apply parse_append
  · decide
  · decide
  · decide +kernel
  · decide +kernel

end PolyCalc.Config
