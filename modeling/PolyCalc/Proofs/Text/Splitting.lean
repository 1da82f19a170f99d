import Mathlib.Data.List.Infix
import PolyCalc.Proofs.Text.Brackets
import PolyCalc.Text.Slices

set_option autoImplicit false

/-! # Splitting outside of brackets

A balanced text has exactly one split into one piece or more at the separators outside of its
brackets (`splitOutside?_unique`), where balance and depth are given by counting brackets; only the
empty text can also be had from no pieces. The scanners behind it read one character at a time, so
each is compared with the counts by an induction along the text: `closes_iff` for the balance,
`freeFrom_iff` for the separators.

The same split is made by cutting the text at the byte offsets of the separators
(`cutAt?_separatorOffsets`), so none of these offsets is out of range or inside a character. -/

namespace PolyCalc.Text

variable {sep : Char} {a b cs : List Char}

/-! ## Balance and depth by counting -/

/-- No beginning of the text closes more brackets than it opens, and as many are opened as
    closed. -/
def Balanced (cs : List Char) : Prop :=
  (∀ a b, cs = a ++ b → a.count ')' ≤ a.count '(') ∧ cs.count '(' = cs.count ')'

/-- Before every separator in the text some bracket is open. -/
def Unseparated (sep : Char) (cs : List Char) : Prop :=
  ∀ a b, cs = a ++ sep :: b → a.count '(' ≠ a.count ')'

theorem height_eq_count : height cs = cs.count '(' - cs.count ')' := by
  induction cs with
  | nil => rfl
  | cons c cs ih =>
    rw [height, ih, List.count_cons, List.count_cons]
    by_cases hopen : c = '('
    · simp [hopen, bracketStep]
      omega
    · by_cases hclose : c = ')'
      · simp [hclose, bracketStep]
        omega
      · simp [hopen, hclose, bracketStep]

/-- A text closes `d` brackets exactly if its depth never falls below zero and ends there. -/
theorem closes_iff {d : Nat} :
    Closes d cs ↔ (∀ a b, cs = a ++ b → 0 ≤ d + height a) ∧ d + height cs = 0 := by
  constructor
  · intro h
    refine ⟨?_, by rw [h.height_eq]; omega⟩
    intro a b heq
    induction h generalizing a with
    | nil =>
      obtain ⟨rfl, -⟩ := List.append_eq_nil_iff.mp heq.symm
      exact Int.le_refl 0
    | @opening d cs _ ih =>
      rcases List.cons_eq_append_iff.mp heq with ⟨rfl, -⟩ | ⟨a', rfl, hrest⟩
      · simp [height]
      · have hrec := ih a' hrest
        have hstep : bracketStep '(' = 1 := rfl
        rw [height, hstep]
        omega
    | @closing d cs _ ih =>
      rcases List.cons_eq_append_iff.mp heq with ⟨rfl, -⟩ | ⟨a', rfl, hrest⟩
      · simp [height]
        omega
      · have hrec := ih a' hrest
        have hstep : bracketStep ')' = -1 := rfl
        rw [height, hstep]
        omega
    | @plain d c cs hc _ ih =>
      rcases List.cons_eq_append_iff.mp heq with ⟨rfl, -⟩ | ⟨a', rfl, hrest⟩
      · simp [height]
      · rw [height, hc, Int.zero_add]
        exact ih a' hrest
  · rintro ⟨hnonneg, hend⟩
    induction cs generalizing d with
    | nil =>
      have hd : d = 0 := by simpa [height] using hend
      rw [hd]
      exact .nil
    | cons c cs ih =>
      -- What holds of the whole text at depth `d` holds of its rest at the depth after `c`.
      have hrest : ∀ e : Nat, (e : Int) = d + bracketStep c → Closes e cs := by
        intro e he
        refine ih ?_ ?_
        · rintro a b rfl
          have hle := hnonneg (c :: a) b rfl
          rw [height] at hle
          omega
        · rw [height] at hend
          omega
      rcases bracketStep_cases c with rfl | rfl | hc
      · exact .opening (hrest (d + 1) (by simp [bracketStep]))
      · have hfirst := hnonneg [')'] cs rfl
        have hstep : bracketStep ')' = -1 := rfl
        rw [height, height, hstep] at hfirst
        obtain ⟨e, rfl⟩ : ∃ e, d = e + 1 := ⟨d - 1, by omega⟩
        exact .closing (hrest e (by rw [hstep]; omega))
      · exact .plain hc (hrest d (by rw [hc, Int.add_zero]))

theorem balanced_iff_closes : Balanced cs ↔ Closes 0 cs := by
  unfold Balanced
  rw [closes_iff, height_eq_count]
  constructor
  · rintro ⟨hle, heq⟩
    refine ⟨?_, by omega⟩
    intro a b hab
    have hcount := hle a b hab
    rw [height_eq_count]
    omega
  · rintro ⟨hnonneg, hend⟩
    refine ⟨?_, by omega⟩
    intro a b hab
    have hheight := hnonneg a b hab
    rw [height_eq_count] at hheight
    omega

theorem freeFrom_iff (hsep : bracketStep sep = 0) {d : Int} :
    freeFrom sep d cs = true ↔ ∀ a b, cs = a ++ sep :: b → d + height a ≠ 0 := by
  induction cs generalizing d with
  | nil => simp [freeFrom]
  | cons c cs ih =>
    have hhere : separates sep d c = true ↔ c = sep ∧ d = 0 := by
      simp only [separates, Bool.and_eq_true, beq_iff_eq]
      constructor
      · exact fun h => h.1
      · rintro ⟨rfl, hd⟩
        exact ⟨⟨rfl, hd⟩, hsep⟩
    rw [freeFrom, Bool.and_eq_true, Bool.not_eq_true', ← Bool.not_eq_true, hhere, ih]
    constructor
    · rintro ⟨hfirst, hrest⟩ a b heq
      cases a with
      | nil =>
        obtain ⟨rfl, -⟩ := List.cons.inj heq
        rw [height, Int.add_zero]
        exact fun hd => hfirst ⟨rfl, hd⟩
      | cons c' a =>
        obtain ⟨rfl, htail⟩ := List.cons.inj heq
        rw [height, ← Int.add_assoc]
        exact hrest a b htail
    · intro h
      refine ⟨?_, ?_⟩
      · rintro ⟨rfl, hd⟩
        have hne := h [] cs rfl
        rw [height, Int.add_zero] at hne
        exact hne hd
      · rintro a b rfl
        have hne := h (c :: a) b rfl
        rwa [height, ← Int.add_assoc] at hne

theorem unseparated_iff_freeFrom (hsep : bracketStep sep = 0) :
    Unseparated sep cs ↔ freeFrom sep 0 cs = true := by
  unfold Unseparated
  rw [freeFrom_iff hsep]
  constructor
  · intro h a b heq
    have hne := h a b heq
    rw [height_eq_count]
    omega
  · intro h a b heq
    have hne := h a b heq
    rw [height_eq_count] at hne
    omega

/-! ## The pieces of a balanced text -/

/-- A character that does not separate begins the first piece of what follows it. -/
theorem exists_of_piecesFrom_cons {d : Int} {c : Char} {w : List Char} {ws : List (List Char)}
    (hc : separates sep d c = false) (h : piecesFrom sep d (c :: cs) = w :: ws) :
    ∃ w', w = c :: w' ∧ piecesFrom sep (d + bracketStep c) cs = w' :: ws := by
  rw [piecesFrom, hc, if_neg Bool.false_ne_true] at h
  cases hrest : piecesFrom sep (d + bracketStep c) cs with
  | nil => exact absurd hrest (piecesFrom_ne_nil _)
  | cons w' ws' =>
    rw [hrest, consPiece] at h
    obtain ⟨rfl, rfl⟩ := List.cons.inj h
    exact ⟨w', rfl, rfl⟩

/-- The separators of a text part it into pieces that are balanced and have none outside of their
    brackets. The first piece closes the brackets that were open before the text. -/
theorem closes_free_of_piecesFrom {d : Nat} (h : Closes d cs) {w : List Char}
    {ws : List (List Char)} (hpieces : piecesFrom sep d cs = w :: ws) :
    (Closes d w ∧ freeFrom sep d w = true) ∧ ∀ u ∈ ws, Closes 0 u ∧ freeFrom sep 0 u = true := by
  induction h generalizing w ws with
  | nil =>
    cases hpieces
    exact ⟨⟨.nil, rfl⟩, by simp⟩
  | @opening d cs _ ih =>
    have hc : separates sep d '(' = false := Bool.and_false _
    obtain ⟨w', rfl, hrest⟩ := exists_of_piecesFrom_cons hc hpieces
    obtain ⟨⟨hcloses, hfree⟩, hlater⟩ := ih hrest
    refine ⟨⟨.opening hcloses, ?_⟩, hlater⟩
    rw [freeFrom, hc]
    exact hfree
  | @closing d cs _ ih =>
    have hc : separates sep (d + 1 : Nat) ')' = false := separates_eq_false (by omega) _
    have hdepth : ((d + 1 : Nat) : Int) + bracketStep ')' = d := by
      have hstep : bracketStep ')' = -1 := rfl
      omega
    obtain ⟨w', rfl, hrest⟩ := exists_of_piecesFrom_cons hc hpieces
    rw [hdepth] at hrest
    obtain ⟨⟨hcloses, hfree⟩, hlater⟩ := ih hrest
    refine ⟨⟨.closing hcloses, ?_⟩, hlater⟩
    rw [freeFrom, hc, hdepth, hfree]
    rfl
  | @plain d c cs hstep hcs ih =>
    by_cases hc : separates sep d c = true
    -- The text is parted here, at depth zero.
    · have hd : d = 0 := by
        simp only [separates, Bool.and_eq_true, beq_iff_eq] at hc
        exact_mod_cast hc.1.2
      subst hd
      rw [piecesFrom, if_pos hc] at hpieces
      obtain ⟨rfl, rfl⟩ := List.cons.inj hpieces
      refine ⟨⟨.nil, rfl⟩, ?_⟩
      cases hrest : piecesFrom sep (0 : Nat) cs with
      | nil => exact absurd hrest (piecesFrom_ne_nil _)
      | cons w' ws' =>
        obtain ⟨hfirst, hlater⟩ := ih hrest
        exact List.forall_mem_cons.mpr ⟨hfirst, hlater⟩
    · rw [Bool.not_eq_true] at hc
      obtain ⟨w', rfl, hrest⟩ := exists_of_piecesFrom_cons hc hpieces
      rw [hstep, Int.add_zero] at hrest
      obtain ⟨⟨hcloses, hfree⟩, hlater⟩ := ih hrest
      refine ⟨⟨.plain hstep hcloses, ?_⟩, hlater⟩
      rw [freeFrom, hc, hstep, Int.add_zero, hfree]
      rfl

theorem closes_free_of_mem_pieces (h : Closes 0 cs) :
    ∀ w ∈ pieces sep cs, Closes 0 w ∧ freeFrom sep 0 w = true := by
  cases hpieces : pieces sep cs with
  | nil => exact absurd hpieces (piecesFrom_ne_nil 0)
  | cons w ws =>
    obtain ⟨hfirst, hlater⟩ := closes_free_of_piecesFrom h hpieces
    exact List.forall_mem_cons.mpr ⟨hfirst, hlater⟩

/-- Pieces that were joined by a separator are parted there again, and nowhere else. -/
theorem pieces_intercalate (hsep : bracketStep sep = 0) {ws : List (List Char)} (hne : ws ≠ [])
    (h : ∀ w ∈ ws, Closes 0 w ∧ freeFrom sep 0 w = true) :
    pieces sep ([sep].intercalate ws) = ws := by
  induction ws with
  | nil => exact absurd rfl hne
  | cons w ws ih =>
    obtain ⟨⟨hcloses, hfree⟩, hlater⟩ := List.forall_mem_cons.mp h
    cases ws with
    | nil => rw [List.intercalate_singleton, pieces_of_free hfree]
    | cons w' ws =>
      rw [List.intercalate_cons_cons, List.append_assoc, List.singleton_append,
        pieces_append_cons hsep hcloses hfree, ih (List.cons_ne_nil _ _) hlater]

/-! ## Byte offsets -/

theorem byteLength_append : byteLength (a ++ b) = byteLength a + byteLength b := by
  induction a with
  | nil => simp [byteLength]
  | cons c a ih => rw [List.cons_append, byteLength, byteLength, ih, Nat.add_assoc]

theorem dropBytes_eq_some_iff {n : Nat} :
    dropBytes cs n = some b ↔ ∃ a, cs = a ++ b ∧ byteLength a = n := by
  constructor
  · intro h
    induction cs generalizing n with
    | nil =>
      cases n with
      | zero =>
        simp only [dropBytes, Option.some.injEq] at h
        exact ⟨[], h, rfl⟩
      | succ n => simp [dropBytes] at h
    | cons c cs ih =>
      cases n with
      | zero =>
        simp only [dropBytes, Option.some.injEq] at h
        exact ⟨[], h, rfl⟩
      | succ n =>
        rw [dropBytes] at h
        split at h
        · obtain ⟨a, rfl, hlen⟩ := ih h
          exact ⟨c :: a, rfl, by rw [byteLength]; omega⟩
        · cases h
  · rintro ⟨a, rfl, rfl⟩
    induction a with
    | nil => cases b <;> rfl
    | cons c a ih =>
      have hpos := c.utf8Size_pos
      obtain ⟨n, hn⟩ : ∃ n, byteLength (c :: a) = n + 1 :=
        ⟨byteLength (c :: a) - 1, by rw [byteLength]; omega⟩
      rw [hn, List.cons_append, dropBytes]
      rw [byteLength] at hn
      rw [if_pos (by omega), ← ih]
      congr 1
      omega

theorem takeBytes_eq_some_iff {n : Nat} :
    takeBytes cs n = some a ↔ ∃ b, cs = a ++ b ∧ byteLength a = n := by
  constructor
  · intro h
    induction cs generalizing n a with
    | nil =>
      cases n with
      | zero =>
        simp only [takeBytes, Option.some.injEq] at h
        exact ⟨[], by simp [← h], by rw [← h]; rfl⟩
      | succ n => simp [takeBytes] at h
    | cons c cs ih =>
      cases n with
      | zero =>
        simp only [takeBytes, Option.some.injEq] at h
        exact ⟨c :: cs, by simp [← h], by rw [← h]; rfl⟩
      | succ n =>
        rw [takeBytes] at h
        split at h
        · obtain ⟨a', ha', rfl⟩ := Option.map_eq_some_iff.mp h
          obtain ⟨b, rfl, hlen⟩ := ih ha'
          exact ⟨b, rfl, by rw [byteLength]; omega⟩
        · cases h
  · rintro ⟨b, rfl, rfl⟩
    induction a with
    | nil => cases b <;> rfl
    | cons c a ih =>
      have hpos := c.utf8Size_pos
      obtain ⟨n, hn⟩ : ∃ n, byteLength (c :: a) = n + 1 :=
        ⟨byteLength (c :: a) - 1, by rw [byteLength]; omega⟩
      rw [hn, List.cons_append, takeBytes]
      rw [byteLength] at hn
      have hrest : n + 1 - c.utf8Size = byteLength a := by omega
      rw [if_pos (by omega), hrest, ih]
      rfl

/-- A slice is what stands between two places of the text, and its offsets are those places. -/
theorem slice?_eq_some_iff {start stop : Nat} {w : List Char} :
    slice? cs start stop = some w ↔
      ∃ a b, cs = a ++ (w ++ b) ∧ byteLength a = start ∧ byteLength (a ++ w) = stop := by
  unfold slice?
  constructor
  · intro h
    split at h
    · next hle =>
      obtain ⟨rest, hdrop, htake⟩ := Option.bind_eq_some_iff.mp h
      obtain ⟨a, rfl, hstart⟩ := dropBytes_eq_some_iff.mp hdrop
      obtain ⟨b, rfl, hlen⟩ := takeBytes_eq_some_iff.mp htake
      exact ⟨a, b, rfl, hstart, by rw [byteLength_append]; omega⟩
    · cases h
  · rintro ⟨a, b, rfl, rfl, rfl⟩
    rw [byteLength_append, if_pos (by omega)]
    refine Option.bind_eq_some_iff.mpr ⟨w ++ b, dropBytes_eq_some_iff.mpr ⟨a, rfl, rfl⟩, ?_⟩
    exact takeBytes_eq_some_iff.mpr ⟨b, rfl, by omega⟩

/-- Cutting goes on behind `a` with a piece of which `p` has been seen. -/
theorem cutAt?_separatorOffsetsFrom (a p cs : List Char) (d : Int) {w : List Char}
    {ws : List (List Char)} (h : piecesFrom sep d cs = w :: ws) :
    cutAt? (a ++ (p ++ cs)) sep.utf8Size (byteLength a)
      (separatorOffsetsFrom sep d (byteLength (a ++ p)) cs) = some ((p ++ w) :: ws) := by
  induction cs generalizing a p d w ws with
  | nil =>
    cases h
    rw [separatorOffsetsFrom, cutAt?, dropBytes_eq_some_iff.mpr ⟨a, rfl, rfl⟩]
    rfl
  | cons c cs ih =>
    have hnext : byteLength (a ++ (p ++ [c])) = byteLength (a ++ p) + c.utf8Size := by
      rw [← List.append_assoc, byteLength_append]
      rfl
    rw [separatorOffsetsFrom]
    by_cases hc : separates sep d c = true
    -- The piece ends here, and the next one begins behind the separator.
    · obtain ⟨hsep, hstep⟩ : c = sep ∧ bracketStep c = 0 := by
        simp only [separates, Bool.and_eq_true, beq_iff_eq] at hc
        exact ⟨hc.1.1, hc.2⟩
      subst hsep
      rw [piecesFrom, if_pos hc] at h
      obtain ⟨rfl, rfl⟩ := List.cons.inj h
      cases hrest : piecesFrom c d cs with
      | nil => exact absurd hrest (piecesFrom_ne_nil _)
      | cons w ws =>
        have hcut := ih (a ++ (p ++ [c])) [] d hrest
        have hslice : slice? (a ++ (p ++ c :: cs)) (byteLength a) (byteLength (a ++ p)) = some p :=
          slice?_eq_some_iff.mpr ⟨a, c :: cs, rfl, rfl, rfl⟩
        simp only [List.append_assoc, List.append_nil, List.nil_append, List.cons_append,
          hnext] at hcut
        simp only [if_pos hc, cutAt?, hslice, hstep, Int.add_zero, hcut, Option.bind_some,
          Option.map_some, List.append_nil]
    · obtain ⟨w', rfl, hrest⟩ := exists_of_piecesFrom_cons (Bool.not_eq_true _ ▸ hc) h
      have hcut := ih a (p ++ [c]) _ hrest
      simp only [hnext, List.append_assoc, List.singleton_append] at hcut
      simp only [if_neg hc]
      exact hcut

/-- Cutting a text at the offsets of its separators gives its pieces. -/
theorem cutAt?_separatorOffsets (sep : Char) (cs : List Char) :
    cutAt? cs sep.utf8Size 0 (separatorOffsets sep cs) = some (pieces sep cs) := by
  cases h : piecesFrom sep 0 cs with
  | nil => exact absurd h (piecesFrom_ne_nil 0)
  | cons w ws =>
    rw [pieces, h]
    exact cutAt?_separatorOffsetsFrom [] [] cs 0 h

/-! ## The split -/

/-- The texts are a split of `cs`: joined by the separator they give `cs`, and each is balanced and
    has no separator outside of its brackets. -/
structure IsSplit (sep : Char) (cs : List Char) (ws : List (List Char)) : Prop where
  joined : [sep].intercalate ws = cs
  balanced : ∀ w ∈ ws, Balanced w
  unseparated : ∀ w ∈ ws, Unseparated sep w

theorem isSplit_iff (hsep : bracketStep sep = 0) {ws : List (List Char)} :
    IsSplit sep cs ws ↔
      [sep].intercalate ws = cs ∧ ∀ w ∈ ws, Closes 0 w ∧ freeFrom sep 0 w = true := by
  constructor
  · rintro ⟨hjoined, hbalanced, hunseparated⟩
    refine ⟨hjoined, ?_⟩
    intro w hw
    exact ⟨balanced_iff_closes.mp (hbalanced w hw),
      (unseparated_iff_freeFrom hsep).mp (hunseparated w hw)⟩
  · rintro ⟨hjoined, h⟩
    exact ⟨hjoined, fun w hw => balanced_iff_closes.mpr (h w hw).1,
      fun w hw => (unseparated_iff_freeFrom hsep).mpr (h w hw).2⟩

/-- A text is not split exactly if its brackets are not balanced. What a balanced text is split
    into is its only split into one piece or more; no pieces at all are a split of the empty text
    alone. Cutting at the byte offsets of the separators gives the same pieces: each offset lies in
    the text and between two characters. -/
theorem splitOutside?_unique (sep : Char) (hopen : sep ≠ '(') (hclose : sep ≠ ')')
    (cs : List Char) :
    (splitOutside? sep cs = none ↔ ¬ Balanced cs) ∧
      ∀ ws, splitOutside? sep cs = some ws →
        ws ≠ [] ∧ IsSplit sep cs ws ∧
          (∀ us, IsSplit sep cs us → us = ws ∨ cs = [] ∧ us = []) ∧
          cutAt? cs sep.utf8Size 0 (separatorOffsets sep cs) = some ws := by
  have hsep : bracketStep sep = 0 := bracketStep_eq_zero_iff.mpr ⟨hopen, hclose⟩
  refine ⟨?_, ?_⟩
  · rw [balanced_iff_closes, ← isBalanced_iff]
    unfold splitOutside?
    split <;> simp_all
  · intro ws h
    have hcloses := closes_of_splitOutside? h
    obtain rfl : pieces sep cs = ws := by
      rw [splitOutside?, if_pos (isBalanced_iff.mpr hcloses)] at h
      exact Option.some.inj h
    have hsplit := (isSplit_iff hsep).mpr
      ⟨intercalate_piecesFrom 0 cs, closes_free_of_mem_pieces hcloses⟩
    refine ⟨piecesFrom_ne_nil 0, hsplit, ?_, cutAt?_separatorOffsets sep cs⟩
    intro us hus
    obtain ⟨rfl, hpieces⟩ := (isSplit_iff hsep).mp hus
    by_cases hne : us = []
    · rw [hne]
      exact Or.inr ⟨rfl, rfl⟩
    · exact Or.inl (pieces_intercalate hsep hne hpieces).symm

/-- The empty text is split into one empty piece, but no pieces at all join to it as well. So what a
    text is split into need not be its only split. -/
theorem empty_split_not_unique :
    '+' ≠ '(' ∧ '+' ≠ ')' ∧ Balanced [] ∧ splitOutside? '+' [] = some [[]] ∧
      ¬∀ us, IsSplit '+' [] us → us = [[]] := by
  have hbalanced : Balanced [] := balanced_iff_closes.mpr .nil
  have hnone : IsSplit '+' [] [] := ⟨rfl, by simp, by simp⟩
  refine ⟨by decide, by decide, hbalanced, by decide, ?_⟩
  intro honly
  exact absurd (honly [] hnone) (by simp)

/-- A text with a separator of three bytes, once inside of brackets. -/
def arrows : List Char := "f→(g→h)→é".toList

theorem splitOutside?_unique_arrows :
    '→' ≠ '(' ∧ '→' ≠ ')' ∧
      splitOutside? '→' arrows = some ["f".toList, "(g→h)".toList, "é".toList] ∧
      (∀ us, IsSplit '→' arrows us → us = ["f".toList, "(g→h)".toList, "é".toList]) ∧
      cutAt? arrows 3 0 [1, 11] = some ["f".toList, "(g→h)".toList, "é".toList] ∧
      ¬ Balanced "f)→(g".toList := by
  have hsplit : splitOutside? '→' arrows = some ["f".toList, "(g→h)".toList, "é".toList] := by
    decide +kernel
  have hfails : splitOutside? '→' "f)→(g".toList = none := by decide +kernel
  obtain ⟨-, hsome⟩ := splitOutside?_unique '→' (by decide) (by decide) arrows
  obtain ⟨hnone, -⟩ := splitOutside?_unique '→' (by decide) (by decide) "f)→(g".toList
  obtain ⟨-, -, honly, hcut⟩ := hsome _ hsplit
  refine ⟨by decide, by decide, hsplit, ?_, hcut, hnone.mp hfails⟩
  intro us hus
  rcases honly us hus with heq | ⟨hempty, -⟩
  · exact heq
  · exact absurd hempty (by decide)

end PolyCalc.Text
