import PolyCalc.Poly.ByOffset
import PolyCalc.Proofs.Poly.Reading
import PolyCalc.Proofs.Text.Matching

set_option autoImplicit false

/-! # Reading by offsets does not trap

The reader that cuts a text at byte offsets ends on every text, with what the reader of characters
gives (`parse_eq`). A sum is parted only if its brackets are balanced, and then those of each piece
are; so a piece that begins with a bracket has the one that closes it, and what the reader would do
without it makes no difference. -/

namespace PolyCalc

open Text

namespace ByOffset

variable {α β : Type}

/-! ## Steps -/

theorem bind_run {x : Guarded α} {next : α → Guarded β} {result : Except ParseFault α}
    {f : α → Except ParseFault β} (h : x.run = .ok result)
    (hnext : ∀ a, (next a).run = .ok (f a)) : (x >>= next).run = .ok (result >>= f) := by
  rw [ExceptT.run_bind, h]
  cases result with
  | error fault => rfl
  | ok a => exact hnext a

theorem map_run {x : Guarded α} {result : Except ParseFault α} (h : x.run = .ok result)
    (f : α → β) : (do return f (← x)).run = .ok (result.map f) := by
  rw [ExceptT.run_bind, h]
  cases result <;> rfl

theorem lift_bind {x : Except Trap α} {a : α} (h : x = .ok a) (next : α → Guarded β) :
    ((liftM x : Guarded α) >>= next) = next a := by
  subst h
  rfl

theorem ofExcept_run (result : Except ParseFault α) :
    (MonadExcept.ofExcept result : Guarded α).run = .ok result := by
  cases result <;> rfl

/-! ## Monomials -/

variable {unmatched : Guarded (Mono Poly)} {readCoef : List Char → Except ParseFault Poly}
  {read : List Char → Guarded Poly}

/-- What stands between balanced brackets is parted at the same commas. -/
theorem parseParts_run (hread : ∀ cs, (read cs).run = .ok (readCoef cs)) {inner : List Char}
    (h : Closes 0 inner) :
    (parseParts read ('(' :: (inner ++ [')'])) inner).run =
      .ok (Poly.parseMono readCoef ('(' :: (inner ++ [')']))) := by
  have hsplit : splitAtClose 0 (inner ++ [')']) = some (inner, []) :=
    splitAtClose_eq_some_iff.mpr ⟨rfl, h⟩
  unfold parseParts Poly.parseMono
  simp only [ne_eq, not_true_eq_false, if_false, hsplit]
  rcases cut_cases ',' inner with ⟨hoffsets, w, hpieces⟩ |
    ⟨comma, coefText, expText, hoffsets, hpieces, hslice, hdrop⟩ |
    ⟨first, second, later, w, w', w'', ws, hoffsets, hpieces⟩
  · rw [hoffsets, hpieces]
    rfl
  · have hrest : checkedDrop inner (comma + 1) = .ok expText := hdrop
    rw [hoffsets, hpieces]
    show ExceptT.run (liftM (checkedSlice inner 0 comma) >>= _) = _
    rw [lift_bind hslice]
    refine bind_run (hread coefText) ?_
    intro p
    rw [lift_bind hrest]
    refine bind_run (ofExcept_run _) ?_
    intro e
    rfl
  · rw [hoffsets, hpieces]
    rfl

/-- With the partner of its first bracket, a piece is read as by characters. -/
theorem parseMono_bracketed_run (hread : ∀ cs, (read cs).run = .ok (readCoef cs))
    {inner : List Char} (h : Closes 0 inner) (rest : List Char) :
    (parseMono unmatched read ('(' :: (inner ++ ')' :: rest))).run =
      .ok (Poly.parseMono readCoef ('(' :: (inner ++ ')' :: rest))) := by
  have hclose : findClosing ('(' :: (inner ++ ')' :: rest)) 0 =
      .ok (some (1 + byteLength inner)) := by
    rw [findClosing_eq, closingOffset?_bracketed h]
  have hlast : checkedSub (byteLength ('(' :: (inner ++ ')' :: rest))) 1 =
      .ok (1 + byteLength inner + byteLength rest) := by
    rw [byteLength_bracketed, checkedSub, if_pos (by omega)]
    congr 1
    omega
  unfold parseMono
  simp only [List.head?_cons, reduceCtorEq, if_false, ne_eq, not_true_eq_false]
  rw [lift_bind hclose]
  dsimp only
  rw [lift_bind hlast]
  -- The partner is the last byte exactly if nothing follows it.
  cases rest with
  | nil =>
    rw [if_neg (by simp [byteLength]), lift_bind (checkedSlice_bracketed inner [])]
    exact parseParts_run hread h
  | cons r rest =>
    have hsplit : splitAtClose 0 (inner ++ ')' :: r :: rest) = some (inner, r :: rest) :=
      splitAtClose_eq_some_iff.mpr ⟨rfl, h⟩
    have hpos := r.utf8Size_pos
    rw [if_pos (by rw [byteLength]; omega), lift_bind (checkedDrop_bracketed inner (r :: rest))]
    unfold Poly.parseMono
    simp only [ne_eq, not_true_eq_false, if_false, hsplit]
    rfl

/-- A balanced piece is read as by characters, whatever is done where no partner is found. -/
theorem parseMono_run (hread : ∀ cs, (read cs).run = .ok (readCoef cs)) {piece : List Char}
    (h : Closes 0 piece) :
    (parseMono unmatched read piece).run = .ok (Poly.parseMono readCoef piece) := by
  cases piece with
  | nil => rfl
  | cons c cs =>
    by_cases hopen : c = '('
    · subst hopen
      obtain ⟨inner, rest, rfl, hinner⟩ := h.exists_of_open
      exact parseMono_bracketed_run hread hinner rest
    · have hhead : (c :: cs).head? ≠ some '(' := by simp [hopen]
      unfold parseMono Poly.parseMono
      rw [if_neg (List.cons_ne_nil c cs), if_pos hhead]
      dsimp only
      rw [if_pos hopen]
      rfl

/-! ## Sums -/

theorem mapM_run (hread : ∀ cs, (read cs).run = .ok (readCoef cs)) {ws : List (List Char)}
    (h : ∀ w ∈ ws, Closes 0 w) :
    (ws.mapM (parseMono unmatched read)).run = .ok (Poly.parseMonos readCoef ws) := by
  induction ws with
  | nil => rfl
  | cons w ws ih =>
    obtain ⟨hw, hws⟩ := List.forall_mem_cons.mp h
    rw [List.mapM_cons, Poly.parseMonos]
    refine bind_run (parseMono_run hread hw) ?_
    intro m
    refine bind_run (ih hws) ?_
    intro ms
    rfl

theorem parseWithin_number_run (limit levels : Nat) {cs : List Char} (h : cs.head? ≠ some '(') :
    (parseWithin unmatched limit levels cs).run = .ok (Poly.parseWithin limit levels cs) := by
  rw [parseWithin.eq_def, if_neg h, Poly.parseWithin_number h]
  exact map_run (ofExcept_run _) Poly.coeff

/-- Each sum has been found balanced before its pieces are read. -/
theorem parseWithin_run (limit levels : Nat) (cs : List Char) :
    (parseWithin unmatched limit levels cs).run = .ok (Poly.parseWithin limit levels cs) := by
  induction levels generalizing cs with
  | zero =>
    by_cases hopen : cs.head? = some '('
    · rw [parseWithin.eq_def, if_pos hopen, Poly.parseWithin_zero hopen]
      rfl
    · exact parseWithin_number_run limit 0 hopen
  | succ levels ih =>
    by_cases hopen : cs.head? = some '('
    · rw [parseWithin.eq_def, if_pos hopen, Poly.parseWithin_succ hopen]
      dsimp only
      rw [lift_bind (checkedSplit_eq '+' cs)]
      cases hsplit : splitOutside? '+' cs with
      | none => rfl
      | some ws =>
        have hbalanced : ∀ w ∈ ws, Closes 0 w := closes_of_mem_splitOutside? hsplit
        exact map_run (mapM_run ih hbalanced) Poly.ofMonos
    · exact parseWithin_number_run limit (levels + 1) hopen

/-- Reading by offsets ends on every text, with what reading by characters gives, whatever is done
    where a bracket has no partner. -/
theorem parse_eq (unmatched : Guarded (Mono Poly)) (limit : Nat) (cs : List Char) (line : Nat) :
    parse unmatched limit cs line = .ok (Poly.parse limit cs line) := by
  unfold parse
  rw [parseWithin_run]
  rfl

/-! ## Partners and traps -/

/-- A bracket is closed at the first byte through which as many brackets are closed as are opened,
    and nowhere if there is none. The search for it, which counts open brackets, does not trap.

    In a piece that a sum is parted into, the first bracket has a partner. So reading does not trap
    either: each text gives a polynomial or a fault, and the same whatever the reader does with a
    piece in which no partner is found. -/
theorem findClosing_exact_parse_total :
    (∀ (cs : List Char) (start : Nat),
        (∀ stop, closingOffset? cs start = some stop ↔
          (utf8 cs)[start]? = some '('.toUInt8 ∧ IsLeast {k | EvenThrough cs start k} stop) ∧
        (closingOffset? cs start = none ↔
          ¬((utf8 cs)[start]? = some '('.toUInt8 ∧ ∃ stop, EvenThrough cs start stop)) ∧
        findClosing cs start = .ok (closingOffset? cs start)) ∧
      (∀ (cs : List Char) (ws : List (List Char)), splitOutside? '+' cs = some ws →
        ∀ w ∈ ws, w.head? = some '(' → ∃ stop, closingOffset? w 0 = some stop) ∧
      ∀ (unmatched : Guarded (Mono Poly)) (limit : Nat) (cs : List Char) (line : Nat),
        parse unmatched limit cs line = .ok (Poly.parse limit cs line) := by
  refine ⟨?_, ?_, parse_eq⟩
  · intro cs start
    exact ⟨fun stop => closingOffset?_eq_some_iff, closingOffset?_eq_none_iff,
      findClosing_eq cs start⟩
  · intro cs ws hsplit w hw hopen
    exact exists_closingOffset?_of_mem_splitOutside? hsplit hw hopen

/-- A sum whose second monomial has a character of three bytes where a number is due. -/
def arrowSum : List Char := "(1,0)+((→,1),2)".toList

/-- The second monomial of `arrowSum`. -/
def arrowPiece : List Char := "((→,1),2)".toList

theorem findClosing_exact_parse_total_arrows :
    splitOutside? '+' arrowSum = some ["(1,0)".toList, arrowPiece] ∧
      arrowPiece ∈ ["(1,0)".toList, arrowPiece] ∧ arrowPiece.head? = some '(' ∧
      (∃ stop, closingOffset? arrowPiece 0 = some stop) ∧
      IsLeast {k | EvenThrough arrowPiece 1 k} 7 ∧
      (¬∃ stop, EvenThrough "é(→".toList 2 stop) ∧
      findClosing "é)(".toList 1 = .ok none ∧
      parse (ExceptT.mk (.error .underflow)) 2 arrowSum 7 =
        .ok (.error ⟨7, .malformed (.numeral .coefficient (.stray '→'))⟩) := by
  obtain ⟨hexact, hpartner, hparse⟩ := findClosing_exact_parse_total
  have hsplit : splitOutside? '+' arrowSum = some ["(1,0)".toList, arrowPiece] := by
    decide +kernel
  have hclosing : closingOffset? arrowPiece 1 = some 7 := by decide +kernel
  have hunclosed : closingOffset? "é(→".toList 2 = none := by decide +kernel
  have hbyte : (utf8 "é(→".toList)[2]? = some '('.toUInt8 := by decide +kernel
  have hinside : closingOffset? "é)(".toList 1 = none := by decide +kernel
  have hfault : Poly.parse 2 arrowSum 7 =
      .error ⟨7, .malformed (.numeral .coefficient (.stray '→'))⟩ := by decide +kernel
  refine ⟨hsplit, by simp, rfl, hpartner _ _ hsplit _ (by simp) rfl,
    ((hexact _ _).1 7 |>.mp hclosing).2, ?_, ?_, ?_⟩
  · intro hstop
    exact (hexact _ _).2.1.mp hunclosed ⟨hbyte, hstop⟩
  · rw [(hexact _ _).2.2, hinside]
  · rw [hparse, hfault]

end ByOffset

end PolyCalc
