import PolyCalc.Text.Brackets

set_option autoImplicit false

/-! # Texts with balanced brackets

How the scanners of brackets read a text that is put together from balanced parts: a balanced part
leaves the depth as it was, nothing inside of brackets separates, and the partner of an opening
bracket stands behind the balanced text that follows it.

`Closes d cs` is the induction behind all of this. It says what `balancedFrom` checks, with a
constructor for each kind of character. -/

namespace PolyCalc.Text

variable {sep : Char} {a b cs : List Char}

/-! ## Balance -/

/-- The text closes `d` brackets that are open before it, and all that it opens itself. -/
inductive Closes : Nat → List Char → Prop
  | nil : Closes 0 []
  | opening {d : Nat} {cs : List Char} : Closes (d + 1) cs → Closes d ('(' :: cs)
  | closing {d : Nat} {cs : List Char} : Closes d cs → Closes (d + 1) (')' :: cs)
  | plain {d : Nat} {c : Char} {cs : List Char} :
    bracketStep c = 0 → Closes d cs → Closes d (c :: cs)

theorem bracketStep_eq_zero_iff {c : Char} : bracketStep c = 0 ↔ c ≠ '(' ∧ c ≠ ')' := by
  unfold bracketStep
  by_cases hopen : c = '('
  · simp [hopen]
  · by_cases hclose : c = ')'
    · simp [hclose]
    · simp [hopen, hclose]

/-- A character opens a bracket, closes one or leaves the depth as it is. -/
theorem bracketStep_cases (c : Char) : c = '(' ∨ c = ')' ∨ bracketStep c = 0 := by
  rw [bracketStep_eq_zero_iff]
  by_cases hopen : c = '('
  · exact Or.inl hopen
  · by_cases hclose : c = ')'
    · exact Or.inr (Or.inl hclose)
    · exact Or.inr (Or.inr ⟨hopen, hclose⟩)

theorem balancedFrom_open (d : Nat) : balancedFrom d ('(' :: cs) = balancedFrom (d + 1) cs := by
  simp [balancedFrom]

theorem balancedFrom_close_succ (d : Nat) :
    balancedFrom (d + 1) (')' :: cs) = balancedFrom d cs := by
  simp [balancedFrom]

theorem balancedFrom_plain {c : Char} (hc : bracketStep c = 0) (d : Nat) :
    balancedFrom d (c :: cs) = balancedFrom d cs := by
  obtain ⟨hopen, hclose⟩ := bracketStep_eq_zero_iff.mp hc
  simp [balancedFrom, hopen, hclose]

theorem balancedFrom_iff {d : Nat} : balancedFrom d cs = true ↔ Closes d cs := by
  constructor
  · intro h
    induction cs generalizing d with
    | nil =>
      have h0 : d = 0 := by simpa [balancedFrom] using h
      rw [h0]
      exact .nil
    | cons c cs ih =>
      rcases bracketStep_cases c with rfl | rfl | hc
      · exact .opening (ih ((balancedFrom_open d).symm.trans h))
      · cases d with
        | zero => simp [balancedFrom] at h
        | succ d => exact .closing (ih ((balancedFrom_close_succ d).symm.trans h))
      · exact .plain hc (ih ((balancedFrom_plain hc d).symm.trans h))
  · intro h
    induction h with
    | nil => rfl
    | opening _ ih => rw [balancedFrom_open, ih]
    | closing _ ih => rw [balancedFrom_close_succ, ih]
    | plain hc _ ih => rw [balancedFrom_plain hc, ih]

theorem isBalanced_iff : isBalanced cs = true ↔ Closes 0 cs := balancedFrom_iff

theorem Closes.append {d e : Nat} (ha : Closes e a) (hb : Closes d b) :
    Closes (d + e) (a ++ b) := by
  induction ha with
  | nil => exact hb
  | opening _ ih => exact .opening ih
  | closing _ ih => exact .closing ih
  | plain hc _ ih => exact .plain hc ih

theorem Closes.bracketed (ha : Closes 0 a) (hb : Closes 0 b) :
    Closes 0 ('(' :: (a ++ ')' :: b)) :=
  .opening (ha.append (.closing hb))

theorem closes_of_plain (h : ∀ c ∈ a, bracketStep c = 0) : Closes 0 a := by
  induction a with
  | nil => exact .nil
  | cons c a ih =>
    obtain ⟨hc, ha⟩ := List.forall_mem_cons.mp h
    exact .plain hc (ih ha)

/-! ## Depth after a text -/

/-- The number of brackets that a text opens, less the number of those that it closes. -/
def height : List Char → Int
  | [] => 0
  | c :: cs => bracketStep c + height cs

theorem Closes.height_eq {d : Nat} (h : Closes d cs) : height cs = -d := by
  induction h with
  | nil => rfl
  | @opening d cs _ ih =>
    have hstep : bracketStep '(' = 1 := rfl
    rw [height, hstep, ih]
    omega
  | @closing d cs _ ih =>
    have hstep : bracketStep ')' = -1 := rfl
    rw [height, hstep, ih]
    omega
  | plain hc _ ih => rw [height, hc, ih, Int.zero_add]

/-! ## Texts without separators -/

/-- Whether no character of a text that begins at the given depth separates. -/
def freeFrom (sep : Char) : Int → List Char → Bool
  | _, [] => true
  | d, c :: cs => !separates sep d c && freeFrom sep (d + bracketStep c) cs

theorem separates_eq_false {d : Int} (h : d ≠ 0) (c : Char) : separates sep d c = false := by
  rw [separates, beq_false_of_ne h, Bool.and_false, Bool.false_and]

theorem freeFrom_append (d : Int) :
    freeFrom sep d (a ++ b) = (freeFrom sep d a && freeFrom sep (d + height a) b) := by
  induction a generalizing d with
  | nil => simp [freeFrom, height]
  | cons c a ih =>
    rw [List.cons_append, freeFrom, freeFrom, ih, height, Int.add_assoc, Bool.and_assoc]

theorem freeFrom_of_ne (d : Int) (h : ∀ c ∈ a, c ≠ sep) : freeFrom sep d a = true := by
  induction a generalizing d with
  | nil => rfl
  | cons c a ih =>
    obtain ⟨hc, ha⟩ := List.forall_mem_cons.mp h
    rw [freeFrom, ih _ ha, separates, beq_false_of_ne hc]
    rfl

/-- Inside of brackets nothing separates. -/
theorem Closes.freeFrom {d : Int} {e : Nat} (h : Closes e a) (hd : 0 < d) :
    freeFrom sep (d + e) a = true := by
  induction h with
  | nil => rfl
  | @opening e a _ ih =>
    have hdepth : d + (e : Int) + bracketStep '(' = d + ((e + 1 : Nat) : Int) := by
      simp only [bracketStep, if_true]
      omega
    rw [Text.freeFrom, separates_eq_false (by omega), hdepth, ih]
    rfl
  | @closing e a _ ih =>
    have hdepth : d + ((e + 1 : Nat) : Int) + bracketStep ')' = d + (e : Int) := by
      have hstep : bracketStep ')' = -1 := rfl
      omega
    rw [Text.freeFrom, separates_eq_false (by omega), hdepth, ih]
    rfl
  | plain hc _ ih =>
    rw [Text.freeFrom, separates_eq_false (by omega), hc, Int.add_zero, ih]
    rfl

theorem Closes.freeFrom_bracketed (h : Closes 0 a) :
    Text.freeFrom sep 0 ('(' :: (a ++ [')'])) = true := by
  have hopen : separates sep 0 '(' = false := Bool.and_false _
  have hclose : separates sep 1 ')' = false := separates_eq_false (by decide) _
  have hinner : Text.freeFrom sep 1 a = true := h.freeFrom (d := 1) (by decide)
  have hheight : height a = 0 := h.height_eq
  simp [Text.freeFrom, freeFrom_append, bracketStep, hopen, hclose, hinner, hheight]

/-! ## Pieces -/

theorem piecesFrom_ne_nil (d : Int) : piecesFrom sep d cs ≠ [] := by
  cases cs with
  | nil => simp [piecesFrom]
  | cons c cs =>
    rw [piecesFrom]
    split
    · simp
    · unfold consPiece
      split <;> simp

theorem consPiece_append {c : Char} {ws us : List (List Char)} (h : ws ≠ []) :
    consPiece c (ws ++ us) = consPiece c ws ++ us := by
  cases ws with
  | nil => exact absurd rfl h
  | cons w ws => rfl

theorem piecesFrom_of_free {d : Int} (h : freeFrom sep d a = true) : piecesFrom sep d a = [a] := by
  induction a generalizing d with
  | nil => rfl
  | cons c a ih =>
    rw [freeFrom, Bool.and_eq_true, Bool.not_eq_true'] at h
    rw [piecesFrom, h.1, ih h.2]
    rfl

/-- A separator at depth zero parts the pieces before it from those after it. -/
theorem piecesFrom_append_cons {d : Int} (hsep : bracketStep sep = 0) (hd : d + height a = 0) :
    piecesFrom sep d (a ++ sep :: b) = piecesFrom sep d a ++ piecesFrom sep 0 b := by
  induction a generalizing d with
  | nil =>
    have h0 : d = 0 := by simpa [height] using hd
    have hhere : separates sep 0 sep = true := by simp [separates, hsep]
    rw [h0, List.nil_append, piecesFrom, piecesFrom]
    simp [hhere]
  -- A separator within `a` ends a piece on both sides alike.
  | cons c a ih =>
    rw [height, ← Int.add_assoc] at hd
    rw [List.cons_append, piecesFrom, piecesFrom]
    by_cases hc : separates sep d c = true
    · have hstep : bracketStep c = 0 := by
        simp only [separates, Bool.and_eq_true, beq_iff_eq] at hc
        exact hc.2
      rw [hstep, Int.add_zero] at hd
      rw [if_pos hc, if_pos hc, ih hd]
      rfl
    · rw [if_neg hc, if_neg hc, ih hd, consPiece_append (piecesFrom_ne_nil _)]

theorem pieces_of_free (h : freeFrom sep 0 a = true) : pieces sep a = [a] := piecesFrom_of_free h

theorem pieces_append_cons (hsep : bracketStep sep = 0) (ha : Closes 0 a)
    (hfree : freeFrom sep 0 a = true) : pieces sep (a ++ sep :: b) = a :: pieces sep b := by
  have hheight : height a = 0 := ha.height_eq
  rw [pieces, piecesFrom_append_cons hsep (by omega), piecesFrom_of_free hfree]
  rfl

/-- Joined again, the pieces give back the text. -/
theorem intercalate_piecesFrom (d : Int) (cs : List Char) :
    [sep].intercalate (piecesFrom sep d cs) = cs := by
  induction cs generalizing d with
  | nil => rfl
  | cons c cs ih =>
    rw [piecesFrom]
    split
    · next hc =>
      have hsep : c = sep := by
        simp only [separates, Bool.and_eq_true, beq_iff_eq] at hc
        exact hc.1.1
      rw [List.intercalate_cons_of_ne_nil (piecesFrom_ne_nil _), ih, hsep]
      rfl
    · have htail := ih (d + bracketStep c)
      cases hws : piecesFrom sep (d + bracketStep c) cs with
      | nil => exact absurd hws (piecesFrom_ne_nil _)
      | cons w ws =>
        rw [hws] at htail
        rw [consPiece, ← htail]
        cases ws with
        | nil => rw [List.intercalate_singleton, List.intercalate_singleton]
        | cons w' ws => rw [List.intercalate_cons_cons, List.intercalate_cons_cons]; rfl

theorem closes_of_splitOutside? {sep : Char} {pieces : List (List Char)}
    (h : splitOutside? sep cs = some pieces) : Closes 0 cs := by
  unfold splitOutside? at h
  split at h
  · next hbalanced => exact isBalanced_iff.mp hbalanced
  · cases h

/-! ## Partners -/

theorem splitAtClose_close_zero : splitAtClose 0 (')' :: cs) = some ([], cs) := by
  simp [splitAtClose]

theorem splitAtClose_close_succ (d : Nat) :
    splitAtClose (d + 1) (')' :: cs) =
      (splitAtClose d cs).map (fun (inner, rest) => (')' :: inner, rest)) := by
  simp [splitAtClose]

theorem splitAtClose_open (d : Nat) :
    splitAtClose d ('(' :: cs) =
      (splitAtClose (d + 1) cs).map (fun (inner, rest) => ('(' :: inner, rest)) := by
  simp [splitAtClose]

theorem splitAtClose_plain {c : Char} (hc : bracketStep c = 0) (d : Nat) :
    splitAtClose d (c :: cs) =
      (splitAtClose d cs).map (fun (inner, rest) => (c :: inner, rest)) := by
  obtain ⟨hopen, hclose⟩ := bracketStep_eq_zero_iff.mp hc
  simp [splitAtClose, hopen, hclose]

theorem Closes.splitAtClose_append {d e : Nat} (h : Closes e a) :
    splitAtClose (d + e) (a ++ b) =
      (splitAtClose d b).map (fun (inner, rest) => (a ++ inner, rest)) := by
  induction h with
  | nil => simp
  | opening _ ih =>
    rw [List.cons_append, splitAtClose_open, Nat.add_assoc, ih, Option.map_map]
    rfl
  | closing _ ih =>
    rw [List.cons_append, ← Nat.add_assoc, splitAtClose_close_succ, ih, Option.map_map]
    rfl
  | plain hc _ ih =>
    rw [List.cons_append, splitAtClose_plain hc, ih, Option.map_map]
    rfl

/-- The partner of an opening bracket is the one that closes it, after a balanced text. -/
theorem splitAtClose_eq_some_iff {d : Nat} :
    splitAtClose d cs = some (a, b) ↔ cs = a ++ ')' :: b ∧ Closes d a := by
  constructor
  · intro h
    induction cs generalizing d a with
    | nil => cases h
    | cons c cs ih =>
      rcases bracketStep_cases c with rfl | rfl | hc
      · rw [splitAtClose_open] at h
        obtain ⟨⟨inner, rest⟩, hsplit, heq⟩ := Option.map_eq_some_iff.mp h
        cases heq
        obtain ⟨rfl, hcloses⟩ := ih hsplit
        exact ⟨rfl, .opening hcloses⟩
      · cases d with
        | zero =>
          rw [splitAtClose_close_zero] at h
          cases h
          exact ⟨rfl, .nil⟩
        | succ d =>
          rw [splitAtClose_close_succ] at h
          obtain ⟨⟨inner, rest⟩, hsplit, heq⟩ := Option.map_eq_some_iff.mp h
          cases heq
          obtain ⟨rfl, hcloses⟩ := ih hsplit
          exact ⟨rfl, .closing hcloses⟩
      · rw [splitAtClose_plain hc] at h
        obtain ⟨⟨inner, rest⟩, hsplit, heq⟩ := Option.map_eq_some_iff.mp h
        cases heq
        obtain ⟨rfl, hcloses⟩ := ih hsplit
        exact ⟨rfl, .plain hc hcloses⟩
  · rintro ⟨rfl, hcloses⟩
    have happ := hcloses.splitAtClose_append (d := 0) (b := ')' :: b)
    rw [Nat.zero_add, splitAtClose_close_zero] at happ
    simpa using happ

end PolyCalc.Text
