import PolyCalc.Config.Value
import PolyCalc.Text.Blank
import PolyCalc.Text.Lines
import PolyCalc.Text.Quoted

set_option autoImplicit false

/-! # Configuration documents

A document is a sequence of sections, each a title followed by pairs `key: value, value, …`.
Titles and keys are identifiers. Line breaks mean nothing, except that a list of values does not
go on past one: a word that is followed by a colon is a key, and one that is not is a title. Lines
that begin with `#` or `//` are comments.

Every part of the text is read from the left. What a part leaves is a list of characters, and the
reader of the next part goes on from there. -/

namespace PolyCalc.Config

/-! ## Tables -/

/-- A table in the order in which its keys were first entered. -/
abbrev Table (α : Type) := List (List Char × α)

/-- Enters a value under a key, in place of the one that was there. -/
def Table.put {α : Type} (key : List Char) (value : α) : Table α → Table α
  | [] => [(key, value)]
  | (k, v) :: t => if k = key then (k, value) :: t else (k, v) :: Table.put key value t

/-- Looks a key up. -/
def Table.get? {α : Type} (key : List Char) : Table α → Option α
  | [] => none
  | (k, v) :: t => if k = key then some v else Table.get? key t

/-- Enters all entries of a second table. -/
def Table.merge {α : Type} (t u : Table α) : Table α :=
  u.foldl (fun t (k, v) => Table.put k v t) t

/-- The keys of a section and their values. -/
abbrev Section := Table (List Value)

/-- The sections of a document. -/
abbrev Document := Table Section

/-- Adds a section; one of the same title gets its keys. -/
def Document.extend (d : Document) (title : List Char) (s : Section) : Document :=
  Table.put title (((Table.get? title d).getD []).merge s) d

/-! ## Comments -/

/-- Whether a line is blank or a comment. -/
def isIgnored (line : List Char) : Bool :=
  match Text.trim line with
  | [] => true
  | '#' :: _ => true
  | '/' :: '/' :: _ => true
  | _ => false

/-- The lines of a text, each without a carriage return before its line feed. -/
def documentLines (text : List Char) : List (List Char) :=
  let (lines, rest) := Text.breakLines '\n' text
  lines.map (Text.dropFinal '\r') ++ if rest.isEmpty then [] else [rest]

/-- The text without comments and blank lines, its lines separated by line feeds. -/
def dropComments (text : List Char) : List Char :=
  List.intercalate ['\n'] ((documentLines text).filter (fun line => !isIgnored line))

/-! ## Words and identifiers -/

/-- Whether an identifier may begin with the character. -/
def isIdentStart (c : Char) : Bool := c.isAlpha || c == '_'

/-- Whether an identifier may go on with the character. -/
def isIdentRest (c : Char) : Bool := c.isAlphanum || c == '_'

/-- Whether a character is a space or a tab. -/
def isSpace (c : Char) : Bool := c == ' ' || c == '\t'

/-- Whether a character may occur in the word of a value. -/
def isWordChar (c : Char) : Bool :=
  !(c == ',' || c == ' ' || c == '\t' || c == '\n' || c == '\r' || c == ';')

/-- A text without the spaces and tabs at its beginning. -/
def skipSpaces (cs : List Char) : List Char := cs.dropWhile isSpace

/-- Takes an identifier. -/
def takeIdent? : List Char → Option (List Char × List Char)
  | [] => none
  | c :: cs =>
    if isIdentStart c then some (c :: cs.takeWhile isIdentRest, cs.dropWhile isIdentRest) else none

/-- Takes the word of a value, which has at least one character. -/
def takeWord? : List Char → Option (List Char × List Char)
  | [] => none
  | c :: cs =>
    if isWordChar c then some (c :: cs.takeWhile isWordChar, cs.dropWhile isWordChar) else none

/-- Takes a comma and the word after it. A comma with no word after it is left where it is. -/
def takeCommaWord? (cs : List Char) : Option (List Char × List Char) :=
  match skipSpaces cs with
  | ',' :: rest => takeWord? (skipSpaces rest)
  | _ => none

/-! ## Values -/

theorem length_lt_of_takeWord? {cs w rest : List Char} (h : takeWord? cs = some (w, rest)) :
    rest.length < cs.length := by
  cases cs with
  | nil => simp [takeWord?] at h
  | cons c cs =>
    simp only [takeWord?] at h
    split at h
    · simp only [Option.some.injEq, Prod.mk.injEq] at h
      have := Text.length_dropWhile_le isWordChar cs
      simp only [← h.2, List.length_cons]
      omega
    · simp at h

theorem length_lt_of_takeCommaWord? {cs w rest : List Char}
    (h : takeCommaWord? cs = some (w, rest)) : rest.length < cs.length := by
  have hs := Text.length_dropWhile_le isSpace cs
  simp only [takeCommaWord?] at h
  split at h
  · next tail heq =>
    have ht := Text.length_dropWhile_le isSpace tail
    have hw := length_lt_of_takeWord? h
    simp only [skipSpaces] at heq hw
    rw [heq] at hs
    simp only [List.length_cons] at hs
    omega
  · simp at h

/-- Takes the words that follow, each after a comma. -/
def takeMoreWords (cs : List Char) : List (List Char) × List Char :=
  match h : takeCommaWord? cs with
  | none => ([], cs)
  | some (w, rest) =>
    have := length_lt_of_takeCommaWord? h
    let (ws, last) := takeMoreWords rest
    (w :: ws, last)
termination_by cs.length

/-- Takes a list of values, which may be empty. -/
def takeValues (cs : List Char) : List Value × List Char :=
  match takeWord? cs with
  | none => ([], cs)
  | some (w, rest) =>
    let (ws, last) := takeMoreWords rest
    ((w :: ws).map Value.ofWord, last)

/-! ## Pairs and sections -/

/-- Takes a key, a colon and a list of values, and the white space at both ends of what is left.
    The error is the text where a key or a colon was due. -/
def takePair (cs : List Char) : Except (List Char) ((List Char × List Value) × List Char) :=
  match takeIdent? cs with
  | none => .error cs
  | some (key, rest) =>
    match skipSpaces rest with
    | ':' :: rest =>
      let (values, last) := takeValues (skipSpaces rest)
      .ok ((key, values), Text.trim last)
    | rest => .error rest

theorem length_lt_of_takeIdent? {cs w rest : List Char} (h : takeIdent? cs = some (w, rest)) :
    rest.length < cs.length := by
  cases cs with
  | nil => simp [takeIdent?] at h
  | cons c cs =>
    simp only [takeIdent?] at h
    split at h
    · simp only [Option.some.injEq, Prod.mk.injEq] at h
      have := Text.length_dropWhile_le isIdentRest cs
      simp only [← h.2, List.length_cons]
      omega
    · simp at h

theorem length_takeMoreWords_le (cs : List Char) : (takeMoreWords cs).2.length ≤ cs.length := by
  fun_induction takeMoreWords cs with
  | case1 => simp
  | case2 cs w rest h lt ws last heq ih =>
    simp only [heq] at ih
    have := length_lt_of_takeCommaWord? h
    simp only
    omega

theorem length_takeValues_le (cs : List Char) : (takeValues cs).2.length ≤ cs.length := by
  simp only [takeValues]
  split
  · simp
  · next w rest h =>
    have := length_lt_of_takeWord? h
    have := length_takeMoreWords_le rest
    simp only
    omega

theorem length_lt_of_takePair {cs rest : List Char} {pair : List Char × List Value}
    (h : takePair cs = .ok (pair, rest)) : rest.length < cs.length := by
  simp only [takePair] at h
  split at h
  · simp at h
  · next key afterKey hkey =>
    have hlt := length_lt_of_takeIdent? hkey
    split at h
    · next afterColon hcolon =>
      simp only [Except.ok.injEq, Prod.mk.injEq] at h
      have h1 := Text.length_dropWhile_le isSpace afterKey
      simp only [skipSpaces] at hcolon
      rw [hcolon] at h1
      simp only [List.length_cons] at h1
      have h2 := length_takeValues_le (skipSpaces afterColon)
      have h3 := Text.length_dropWhile_le isSpace afterColon
      have h4 := Text.length_trim_le (takeValues (skipSpaces afterColon)).2
      simp only [skipSpaces] at h2 h4 h
      rw [← h.2]
      omega
    · simp at h

/-- Takes as many pairs as there are. -/
def takePairs (cs : List Char) : List (List Char × List Value) × List Char :=
  match h : takePair cs with
  | .error _ => ([], cs)
  | .ok (pair, rest) =>
    have := length_lt_of_takePair h
    let (pairs, last) := takePairs rest
    (pair :: pairs, last)
termination_by cs.length

/-- Takes a title and at least one pair. The error is the text where a title, a key or a colon was
    due. -/
def takeSection (cs : List Char) :
    Except (List Char) ((List Char × List (List Char × List Value)) × List Char) :=
  match takeIdent? (skipSpaces cs) with
  | none => .error (skipSpaces cs)
  | some (title, rest) =>
    match takePair (Text.trim rest) with
    | .error e => .error e
    | .ok (pair, rest) =>
      let (pairs, last) := takePairs rest
      .ok ((title, pair :: pairs), last)

theorem length_takePairs_le (cs : List Char) : (takePairs cs).2.length ≤ cs.length := by
  fun_induction takePairs cs with
  | case1 => simp
  | case2 cs pair rest h lt pairs last heq ih =>
    simp only [heq] at ih
    have := length_lt_of_takePair h
    simp only
    omega

theorem length_lt_of_takeSection {cs rest : List Char}
    {s : List Char × List (List Char × List Value)} (h : takeSection cs = .ok (s, rest)) :
    rest.length < cs.length := by
  simp only [takeSection] at h
  split at h
  · simp at h
  · next title afterTitle htitle =>
    have h1 := length_lt_of_takeIdent? htitle
    have h2 := Text.length_dropWhile_le isSpace cs
    have h3 := Text.length_trim_le afterTitle
    split at h
    · simp at h
    · next pair afterPair hpair =>
      have h4 := length_lt_of_takePair hpair
      have h5 := length_takePairs_le afterPair
      simp only [Except.ok.injEq, Prod.mk.injEq] at h
      simp only [skipSpaces] at h1
      rw [← h.2]
      omega

/-- Takes as many sections as there are. -/
def takeSections (cs : List Char) :
    List (List Char × List (List Char × List Value)) × List Char :=
  match h : takeSection cs with
  | .error _ => ([], cs)
  | .ok (s, rest) =>
    have := length_lt_of_takeSection h
    let (sections, last) := takeSections rest
    (s :: sections, last)
termination_by cs.length

/-! ## Documents -/

/-- Why a text is no document, with the text that could not be read. -/
inductive DocumentFault where
  /-- The first section cannot be read from here on. -/
  | firstSection (rest : List Char)
  /-- After the sections that were read there is more. -/
  | leftover (rest : List Char)
  deriving DecidableEq

/-- The wording of a fault. -/
def DocumentFault.message : DocumentFault → String
  | .firstSection rest =>
    "Error(Error \x7b input: " ++ String.ofList (Text.quoted rest) ++ ", code: Tag \x7d)"
  | .leftover rest =>
    "failed to parse entire document, remaining: '" ++ String.ofList rest ++ "'"

/-- The keys of a section; of several values for a key the last one counts. -/
def Section.ofPairs (pairs : List (List Char × List Value)) : Section :=
  pairs.foldl (fun s (key, values) => Table.put key values s) []

/-- The document with the given sections. -/
def Document.ofSections (sections : List (List Char × List (List Char × List Value))) : Document :=
  sections.foldl (fun d (title, pairs) => Document.extend d title (Section.ofPairs pairs)) []

/-- Reads a text without comments. -/
def Document.parseFiltered (cs : List Char) : Except DocumentFault Document :=
  match takeSection cs with
  | .error rest => .error (.firstSection rest)
  | .ok (first, rest) =>
    let (sections, last) := takeSections rest
    if (Text.trim last).isEmpty then .ok (Document.ofSections (first :: sections))
    else .error (.leftover last)

/-- Reads a text, which may be blank. -/
def Document.parse (text : List Char) : Except DocumentFault Document :=
  let filtered := dropComments text
  if (Text.trim filtered).isEmpty then .ok [] else Document.parseFiltered filtered

end PolyCalc.Config
