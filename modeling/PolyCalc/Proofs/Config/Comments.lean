import PolyCalc.Config.Document
import PolyCalc.Proofs.Text.Lines
import PolyCalc.Proofs.Text.Trimming

set_option autoImplicit false

/-! # The lines of a document that count

Of the lines of a text only those count that are neither blank nor comments (`keptLines`), and a
text is read as these lines with a line feed between one and the next. Whether a line counts does
not depend on white space at its ends, so a line that is put in front of a text either counts, and
is read before it, or changes nothing (`keptLines_cons`). The same is true of a whole text that is
put in front of another one, except that a carriage return at its end now stands before a line feed
and is dropped (`exists_keptLines_append`). -/

namespace PolyCalc.Config

open Text

variable {a b line before mark rest text : List Char}

/-! ## Lines -/

theorem documentLines_eq (text : List Char) :
    documentLines text = (breakLines '\n' text).1.map (dropFinal '\r') ++
      if (breakLines '\n' text).2.isEmpty then [] else [(breakLines '\n' text).2] := rfl

theorem documentLines_append (a b : List Char) :
    documentLines (a ++ '\n' :: b) =
      (breakLines '\n' a).1.map (dropFinal '\r') ++
        dropFinal '\r' (breakLines '\n' a).2 :: documentLines b := by
  rw [documentLines_eq, documentLines_eq, breakLines_append_newline]
  simp

theorem mem_of_mem_documentLines {c : Char} (hline : line ∈ documentLines text) (hc : c ∈ line) :
    c ∈ text := by
  rw [documentLines_eq, List.mem_append] at hline
  rcases hline with hline | hline
  · obtain ⟨line', hmem, rfl⟩ := List.mem_map.mp hline
    exact mem_of_mem_breakLines (Or.inl ⟨line', hmem, mem_of_mem_dropFinal hc⟩)
  · split at hline
    · simp at hline
    · rw [List.mem_singleton] at hline
      exact mem_of_mem_breakLines (Or.inr (hline ▸ hc))

/-! ## Lines that are ignored -/

/-- What comments begin with. -/
def commentMarks : List (List Char) := [['#'], ['/', '/']]

theorem isIgnored_congr (h : trim a = trim b) : isIgnored a = isIgnored b := by
  unfold isIgnored
  rw [h]

theorem isIgnored_of_blank (h : ∀ c ∈ line, isBlank c = true) : isIgnored line = true := by
  unfold isIgnored
  rw [trim_eq_nil_iff.mpr h]

theorem isIgnored_comment (hbefore : ∀ c ∈ before, isBlank c = true) (hmark : mark ∈ commentMarks) :
    isIgnored (before ++ (mark ++ rest)) = true := by
  unfold isIgnored
  rw [trim_gap_append hbefore]
  simp only [commentMarks, List.mem_cons, List.not_mem_nil, or_false] at hmark
  rcases hmark with rfl | rfl
  · have htrimmed : Trimmed ['#'] := ⟨stops_cons.mpr (by decide), stops_cons.mpr (by decide)⟩
    rw [htrimmed.trim_append (by simp)]
    rfl
  · have htrimmed : Trimmed ['/', '/'] := ⟨stops_cons.mpr (by decide), stops_cons.mpr (by decide)⟩
    rw [htrimmed.trim_append (by simp)]
    rfl

theorem isIgnored_of_isIdentStart {c : Char} {cs : List Char} (h : trim line = c :: cs)
    (hc : isIdentStart c = true) : isIgnored line = false := by
  unfold isIgnored
  rw [h]
  split
  · next heq => cases heq
  · next heq =>
    cases heq
    cases hc
  · next heq =>
    cases heq
    cases hc
  · rfl

/-- A carriage return at its end does not make a line count. -/
theorem isIgnored_dropFinal (line : List Char) :
    isIgnored (dropFinal '\r' line) = isIgnored line := by
  rcases exists_eq_dropFinal '\r' line with heq | heq
  · rw [heq]
  · have htrim : trim (dropFinal '\r' line ++ ['\r']) = trim (dropFinal '\r' line) :=
      trim_append_gap (List.forall_mem_singleton.mpr (by decide))
    rw [← heq] at htrim
    exact isIgnored_congr htrim.symm

/-! ## Lines that count -/

/-- The lines that are neither blank nor comments. -/
def keptLines (text : List Char) : List (List Char) :=
  (documentLines text).filter (fun line => !isIgnored line)

theorem dropComments_eq (text : List Char) :
    dropComments text = ['\n'].intercalate (keptLines text) := rfl

theorem mem_of_mem_dropComments {c : Char} (h : c ∈ dropComments text) : c = '\n' ∨ c ∈ text := by
  rcases mem_of_mem_intercalate h with hc | ⟨line, hline, hc⟩
  · exact Or.inl (List.mem_singleton.mp hc)
  · exact Or.inr (mem_of_mem_documentLines (List.mem_of_mem_filter hline) hc)

theorem trim_dropComments_eq_nil_iff : trim (dropComments text) = [] ↔ keptLines text = [] := by
  rw [trim_eq_nil_iff, dropComments_eq]
  constructor
  · intro hblank
    cases hlines : keptLines text with
    | nil => rfl
    | cons line lines =>
      have hbegins : line <+: ['\n'].intercalate (line :: lines) := by
        cases lines with
        | nil => exact ⟨[], by simp⟩
        | cons line' lines =>
          rw [List.intercalate_cons_cons, List.append_assoc]
          exact List.prefix_append _ _
      have hmem : line ∈ keptLines text := by simp [hlines]
      have hkept : isIgnored line = false := by simpa using List.of_mem_filter hmem
      rw [hlines] at hblank
      rw [isIgnored_of_blank fun c hc => hblank c (hbegins.subset hc)] at hkept
      cases hkept
  · intro h
    simp [h]

/-- The lines that count, of those which a line feed ends. -/
def keptEnded (text : List Char) : List (List Char) :=
  ((breakLines '\n' text).1.map (dropFinal '\r')).filter (fun line => !isIgnored line)

theorem keptLines_eq (text : List Char) :
    keptLines text = keptEnded text ++
      if isIgnored (breakLines '\n' text).2 then [] else [(breakLines '\n' text).2] := by
  unfold keptLines keptEnded
  rw [documentLines_eq, List.filter_append]
  congr 1
  by_cases hempty : (breakLines '\n' text).2 = []
  · simp [hempty, isIgnored_of_blank]
  · by_cases hignored : isIgnored (breakLines '\n' text).2 = true
    · simp [hempty, hignored]
    · simp [hempty, hignored]

/-- A line feed behind the text ends its last line. -/
theorem keptLines_append (a b : List Char) :
    keptLines (a ++ '\n' :: b) = keptEnded a ++
      ((if isIgnored (breakLines '\n' a).2 then [] else [dropFinal '\r' (breakLines '\n' a).2]) ++
        keptLines b) := by
  unfold keptLines keptEnded
  rw [documentLines_append, List.filter_append, List.filter_cons, isIgnored_dropFinal]
  congr 1
  by_cases hignored : isIgnored (breakLines '\n' a).2 = true
  · simp [hignored]
  · simp [hignored]

/-- The last line of a text, which no line feed ends. -/
theorem keptLines_of_notMem (h : '\n' ∉ line) :
    keptLines line = if isIgnored line then [] else [line] := by
  rw [keptLines_eq, keptEnded, breakLines_of_notMem h]
  rfl

theorem keptLines_cons (h : '\n' ∉ line) (rest : List Char) :
    keptLines (line ++ '\n' :: rest) =
      (if isIgnored line then [] else [dropFinal '\r' line]) ++ keptLines rest := by
  rw [keptLines_append, keptEnded, breakLines_of_notMem h]
  rfl

/-- Two texts with a line feed between them: the lines of both count as before, but a carriage
    return at the end of the first text is dropped. -/
theorem exists_keptLines_append (a b : List Char) :
    ∃ lines, keptLines (a ++ '\n' :: b) = lines ++ keptLines b ∧
      (keptLines a = lines ∨
        ∃ init last, lines = init ++ [last] ∧ keptLines a = init ++ [last ++ ['\r']]) := by
  rw [keptLines_eq a, keptLines_append, ← List.append_assoc]
  refine ⟨_, rfl, ?_⟩
  by_cases hignored : isIgnored (breakLines '\n' a).2 = true
  · simp [hignored]
  · rcases exists_eq_dropFinal '\r' (breakLines '\n' a).2 with heq | heq
    · simp [hignored, heq]
    · right
      refine ⟨keptEnded a, dropFinal '\r' (breakLines '\n' a).2, by simp [hignored], ?_⟩
      rw [← heq]
      simp [hignored]

end PolyCalc.Config
