import Mathlib.Order.Bounds.Basic
import PolyCalc.Proofs.Text.Splitting
import PolyCalc.Text.Matching

set_option autoImplicit false

/-! # The partner of a bracket by counting

An opening bracket is closed at the first offset through which as many brackets are closed as are
opened, the bracket itself included (`closingOffset?_eq_some_iff`). Offsets count bytes, so the
counts are those of bytes: a byte below 128 is never a part of a longer character
(`toUInt8_mem_utf8EncodeChar_iff`), so the bytes of brackets are brackets.

A scan that stops at this offset has a bracket open at every step, so its count never falls below
zero (`findClosing_eq`). -/

namespace PolyCalc.Text

variable {a b cs : List Char}

/-! ## Bytes of characters -/

/-- A byte below 128 is a character of its own. -/
theorem toNat_eq_of_mem_utf8EncodeChar {c : Char} {byte : UInt8}
    (hmem : byte ∈ String.utf8EncodeChar c) (hlt : byte.toNat < 128) : c.toNat = byte.toNat := by
  have hval : c.val.toNat = c.toNat := rfl
  rw [String.utf8EncodeChar.eq_1, hval] at hmem
  by_cases hone : c.toNat ≤ 127
  · rw [if_pos hone, List.mem_singleton] at hmem
    rw [hmem, UInt8.toNat_ofNat']
    omega
  -- The bytes of a longer character are at least 128, by what is added to each.
  · exfalso
    rw [if_neg hone] at hmem
    split_ifs at hmem
    all_goals
      simp only [List.mem_cons, List.not_mem_nil, or_false] at hmem
      rcases hmem with rfl | rfl | rfl | rfl
    all_goals
      rw [UInt8.toNat_ofNat'] at hlt
      omega

theorem toNat_toUInt8 {c : Char} (hc : c.toNat < 128) : c.toUInt8.toNat = c.toNat := by
  have hval : c.toUInt8.toNat = c.toNat % 256 := UInt32.toNat_toUInt8 c.val
  omega

theorem utf8EncodeChar_of_lt {c : Char} (hc : c.toNat < 128) :
    String.utf8EncodeChar c = [c.toUInt8] :=
  String.utf8EncodeChar_eq_singleton
    (Char.utf8Size_eq_one_iff.mpr (UInt32.le_iff_toNat_le.mpr (Nat.le_of_lt_succ hc)))

theorem toUInt8_mem_utf8EncodeChar_iff {c d : Char} (hd : d.toNat < 128) :
    d.toUInt8 ∈ String.utf8EncodeChar c ↔ c = d := by
  constructor
  · intro hmem
    have hnat := toNat_eq_of_mem_utf8EncodeChar hmem (by rwa [toNat_toUInt8 hd])
    rw [toNat_toUInt8 hd] at hnat
    exact Char.toNat_inj.mp hnat
  · rintro rfl
    simp [utf8EncodeChar_of_lt hd]

/-! ## Bytes of texts -/

@[simp] theorem utf8_nil : utf8 [] = [] := rfl

@[simp] theorem utf8_cons (c : Char) (cs : List Char) :
    utf8 (c :: cs) = String.utf8EncodeChar c ++ utf8 cs := rfl

@[simp] theorem utf8_append (a b : List Char) : utf8 (a ++ b) = utf8 a ++ utf8 b :=
  List.flatMap_append

@[simp] theorem length_utf8 (cs : List Char) : (utf8 cs).length = byteLength cs := by
  induction cs with
  | nil => rfl
  | cons c cs ih => simp [byteLength, ih]

/-- The byte of a character below 128 stands at the places of that character and at no others. -/
theorem getElem?_utf8_eq_some_iff {c : Char} (hc : c.toNat < 128) {n : Nat} :
    (utf8 cs)[n]? = some c.toUInt8 ↔ ∃ a b, cs = a ++ c :: b ∧ byteLength a = n := by
  constructor
  · intro h
    induction cs generalizing n with
    | nil => simp at h
    | cons d cs ih =>
      rw [utf8_cons, List.getElem?_append] at h
      split at h
      · next hlt =>
        obtain rfl := (toUInt8_mem_utf8EncodeChar_iff hc).mp (List.mem_of_getElem? h)
        rw [utf8EncodeChar_of_lt hc, List.length_singleton] at hlt
        obtain rfl : n = 0 := by omega
        exact ⟨[], cs, rfl, rfl⟩
      · next hge =>
        rw [String.length_utf8EncodeChar] at h hge
        obtain ⟨a, b, rfl, hlen⟩ := ih h
        refine ⟨d :: a, b, rfl, ?_⟩
        rw [byteLength]
        omega
  · rintro ⟨a, b, rfl, rfl⟩
    simp [utf8EncodeChar_of_lt hc]

theorem count_utf8 {c : Char} (hc : c.toNat < 128) :
    (utf8 cs).count c.toUInt8 = cs.count c := by
  induction cs with
  | nil => rfl
  | cons d cs ih =>
    rw [utf8_cons, List.count_append, ih]
    by_cases hd : d = c
    · subst hd
      rw [utf8EncodeChar_of_lt hc, List.count_singleton_self, List.count_cons_self, Nat.add_comm]
    · have hnotMem : c.toUInt8 ∉ String.utf8EncodeChar d :=
        fun hmem => hd ((toUInt8_mem_utf8EncodeChar_iff hc).mp hmem)
      rw [List.count_eq_zero.mpr hnotMem, List.count_cons_of_ne hd, Nat.zero_add]

/-! ## Counts of bracket bytes -/

/-- With `d` brackets open before them, the bytes up to the offset `stop` close one more than they
    leave open. -/
def ClosesAt (d : Nat) (bytes : List UInt8) (stop : Nat) : Prop :=
  stop < bytes.length ∧
    (bytes.take (stop + 1)).count '('.toUInt8 + d + 1 = (bytes.take (stop + 1)).count ')'.toUInt8

theorem utf8_open : utf8 ('(' :: cs) = '('.toUInt8 :: utf8 cs := rfl

theorem utf8_close : utf8 (')' :: cs) = ')'.toUInt8 :: utf8 cs := rfl

theorem bracket_notMem_utf8EncodeChar {c : Char} (hc : bracketStep c = 0) :
    '('.toUInt8 ∉ String.utf8EncodeChar c ∧ ')'.toUInt8 ∉ String.utf8EncodeChar c := by
  rw [toUInt8_mem_utf8EncodeChar_iff (by decide), toUInt8_mem_utf8EncodeChar_iff (by decide)]
  exact bracketStep_eq_zero_iff.mp hc

/-- Up to no offset does a text without the closing bracket close more than is open. -/
theorem count_take_le_of_splitAtClose {d : Nat} (h : splitAtClose d cs = none) (n : Nat) :
    ((utf8 cs).take n).count ')'.toUInt8 ≤ ((utf8 cs).take n).count '('.toUInt8 + d := by
  induction cs generalizing d n with
  | nil => simp
  | cons c cs ih =>
    rcases bracketStep_cases c with rfl | rfl | hc
    · rw [splitAtClose_open, Option.map_eq_none_iff] at h
      cases n with
      | zero => simp
      | succ n =>
        have hrest := ih h n
        rw [utf8_open, List.take_succ_cons, List.count_cons_self,
          List.count_cons_of_ne (by decide)]
        omega
    · cases d with
      | zero => simp [splitAtClose_close_zero] at h
      | succ d =>
        rw [splitAtClose_close_succ, Option.map_eq_none_iff] at h
        cases n with
        | zero => simp
        | succ n =>
          have hrest := ih h n
          rw [utf8_close, List.take_succ_cons, List.count_cons_self,
            List.count_cons_of_ne (by decide)]
          omega
    -- The first bytes of another character, also if they end inside of it, hold no bracket.
    · obtain ⟨hnotOpen, hnotClose⟩ := bracket_notMem_utf8EncodeChar hc
      rw [splitAtClose_plain hc, Option.map_eq_none_iff] at h
      rw [utf8_cons, List.take_append, List.count_append, List.count_append,
        List.count_eq_zero.mpr fun hmem => hnotOpen (List.mem_of_mem_take hmem),
        List.count_eq_zero.mpr fun hmem => hnotClose (List.mem_of_mem_take hmem),
        Nat.zero_add, Nat.zero_add]
      exact ih h _

theorem not_closesAt {d : Nat} (h : splitAtClose d cs = none) (stop : Nat) :
    ¬ClosesAt d (utf8 cs) stop := by
  rintro ⟨-, hcount⟩
  have hle := count_take_le_of_splitAtClose h (stop + 1)
  omega

/-- A text that closes `d` brackets does not close another one. -/
theorem Closes.splitAtClose_eq_none {d : Nat} (h : Closes d a) : splitAtClose d a = none := by
  have happend := h.splitAtClose_append (d := 0) (b := [])
  simpa [splitAtClose] using happend

/-- The closing bracket is the first one that closes more than was open. -/
theorem isLeast_byteLength {d : Nat} (h : splitAtClose d cs = some (a, b)) :
    IsLeast {stop | ClosesAt d (utf8 cs) stop} (byteLength a) := by
  obtain ⟨rfl, hcloses⟩ := splitAtClose_eq_some_iff.mp h
  rw [utf8_append, utf8_close]
  constructor
  · have htake : (utf8 a ++ ')'.toUInt8 :: utf8 b).take (byteLength a + 1) =
        utf8 a ++ [')'.toUInt8] := by
      rw [← length_utf8, List.take_length_add_append]
      rfl
    refine ⟨by simp, ?_⟩
    have hheight := hcloses.height_eq
    rw [height_eq_count] at hheight
    rw [htake, List.count_append, List.count_append, count_utf8 (by decide),
      count_utf8 (by decide), List.count_singleton_self, List.count_cons_of_ne (by decide),
      List.count_nil]
    omega
  -- An offset before it lies in a text that does not close another bracket.
  · rintro stop ⟨-, hcount⟩
    by_contra hlt
    have hle := count_take_le_of_splitAtClose hcloses.splitAtClose_eq_none (stop + 1)
    rw [List.take_append_of_le_length (by rw [length_utf8]; omega)] at hcount
    omega

/-! ## The partner of a bracket -/

/-- From the byte at the offset `start` through the one at `stop` as many brackets are opened as
    are closed. -/
def EvenThrough (cs : List Char) (start stop : Nat) : Prop :=
  start < stop ∧ stop < byteLength cs ∧
    (((utf8 cs).drop start).take (stop + 1 - start)).count '('.toUInt8 =
      (((utf8 cs).drop start).take (stop + 1 - start)).count ')'.toUInt8

/-- Behind an opening bracket one more has to be closed. -/
theorem evenThrough_iff {stop : Nat} :
    EvenThrough (a ++ '(' :: b) (byteLength a) stop ↔
      ∃ n, stop = byteLength a + 1 + n ∧ ClosesAt 0 (utf8 b) n := by
  have hdrop : (utf8 (a ++ '(' :: b)).drop (byteLength a) = '('.toUInt8 :: utf8 b := by
    rw [utf8_append, ← length_utf8, List.drop_left]
    rfl
  have hlen : byteLength (a ++ '(' :: b) = byteLength a + (1 + byteLength b) := byteLength_append
  unfold EvenThrough ClosesAt
  rw [hdrop, hlen, length_utf8]
  constructor
  · rintro ⟨hlt, hstop, hcount⟩
    obtain ⟨n, rfl⟩ : ∃ n, stop = byteLength a + 1 + n := ⟨stop - (byteLength a + 1), by omega⟩
    have htake : byteLength a + 1 + n + 1 - byteLength a = n + 1 + 1 := by omega
    rw [htake, List.take_succ_cons, List.count_cons_self,
      List.count_cons_of_ne (by decide)] at hcount
    exact ⟨n, rfl, by omega, by omega⟩
  · rintro ⟨n, rfl, hlt, hcount⟩
    have htake : byteLength a + 1 + n + 1 - byteLength a = n + 1 + 1 := by omega
    rw [htake, List.take_succ_cons, List.count_cons_self, List.count_cons_of_ne (by decide)]
    exact ⟨by omega, by omega, by omega⟩

/-- If the bracket is closed, then at the first offset through which the counts agree. -/
theorem isLeast_evenThrough {inner rest : List Char} (h : splitAtClose 0 b = some (inner, rest)) :
    IsLeast {stop | EvenThrough (a ++ '(' :: b) (byteLength a) stop}
      (byteLength a + 1 + byteLength inner) := by
  obtain ⟨hmem, hleast⟩ := isLeast_byteLength h
  constructor
  · exact evenThrough_iff.mpr ⟨byteLength inner, rfl, hmem⟩
  · intro stop hstop
    obtain ⟨n, rfl, hn⟩ := evenThrough_iff.mp hstop
    have hle := hleast hn
    omega

theorem not_evenThrough (h : splitAtClose 0 b = none) (stop : Nat) :
    ¬EvenThrough (a ++ '(' :: b) (byteLength a) stop := by
  intro hstop
  obtain ⟨n, -, hn⟩ := evenThrough_iff.mp hstop
  exact not_closesAt h n hn

theorem closingOffset?_open :
    closingOffset? (a ++ '(' :: b) (byteLength a) =
      (splitAtClose 0 b).map (fun (inner, _) => byteLength a + 1 + byteLength inner) := by
  unfold closingOffset?
  rw [dropBytes_eq_some_iff.mpr ⟨a, rfl, rfl⟩]
  rfl

theorem closingOffset?_of_ne {start : Nat} (h : (utf8 cs)[start]? ≠ some '('.toUInt8) :
    closingOffset? cs start = none := by
  unfold closingOffset?
  split
  · next rest hdrop =>
    obtain ⟨a, rfl, rfl⟩ := dropBytes_eq_some_iff.mp hdrop
    exact absurd ((getElem?_utf8_eq_some_iff (by decide)).mpr ⟨a, rest, rfl, rfl⟩) h
  · rfl

/-- The partner of a bracket is at the first offset through which as many brackets are closed as are
    opened. -/
theorem closingOffset?_eq_some_iff {start stop : Nat} :
    closingOffset? cs start = some stop ↔
      (utf8 cs)[start]? = some '('.toUInt8 ∧ IsLeast {k | EvenThrough cs start k} stop := by
  by_cases hopen : (utf8 cs)[start]? = some '('.toUInt8
  · obtain ⟨a, b, rfl, rfl⟩ := (getElem?_utf8_eq_some_iff (by decide)).mp hopen
    rw [closingOffset?_open, and_iff_right hopen]
    cases hsplit : splitAtClose 0 b with
    | none =>
      constructor
      · simp
      · intro hleast
        exact absurd hleast.1 (not_evenThrough hsplit stop)
    | some parts =>
      have hfirst := isLeast_evenThrough (a := a) hsplit
      simp only [Option.map_some, Option.some.injEq]
      constructor
      · rintro rfl
        exact hfirst
      · exact hfirst.unique
  · rw [closingOffset?_of_ne hopen]
    simp [hopen]

/-- There is no partner only where no bracket stands, or where the counts agree nowhere behind
    it. -/
theorem closingOffset?_eq_none_iff {start : Nat} :
    closingOffset? cs start = none ↔
      ¬((utf8 cs)[start]? = some '('.toUInt8 ∧ ∃ stop, EvenThrough cs start stop) := by
  by_cases hopen : (utf8 cs)[start]? = some '('.toUInt8
  · obtain ⟨a, b, rfl, rfl⟩ := (getElem?_utf8_eq_some_iff (by decide)).mp hopen
    rw [closingOffset?_open, and_iff_right hopen]
    cases hsplit : splitAtClose 0 b with
    | none => simp [not_evenThrough hsplit]
    | some parts =>
      have hfirst := isLeast_evenThrough (a := a) hsplit
      simp only [Option.map_some, reduceCtorEq, false_iff, not_not]
      exact ⟨_, hfirst.1⟩
  · simp [closingOffset?_of_ne hopen, hopen]

/-! ## The scan -/

/-- A character in front moves the partner on by its bytes. -/
theorem map_offset_cons (offset : Nat) (c : Char) (parts : Option (List Char × List Char)) :
    (parts.map fun (inner, rest) => (c :: inner, rest)).map
        (fun (inner, _) => offset + byteLength inner) =
      parts.map fun (inner, _) => offset + c.utf8Size + byteLength inner := by
  cases parts with
  | none => rfl
  | some parts => simp [byteLength, Nat.add_assoc]

/-- With a bracket open at the start, the scan ends at the partner of the first one, and a bracket
    is open at every step before. -/
theorem scanClosing_succ (d offset : Nat) (cs : List Char) :
    scanClosing (d + 1) offset cs =
      .ok ((splitAtClose d cs).map fun (inner, _) => offset + byteLength inner) := by
  induction cs generalizing d offset with
  | nil => rfl
  | cons c cs ih =>
    rw [scanClosing]
    rcases bracketStep_cases c with rfl | rfl | hc
    · rw [if_pos rfl, ih, splitAtClose_open, map_offset_cons]
    · rw [if_neg (by decide), if_pos rfl]
      cases d with
      | zero =>
        rw [splitAtClose_close_zero]
        rfl
      | succ d =>
        rw [splitAtClose_close_succ, map_offset_cons, ← ih]
        rfl
    · obtain ⟨hopen, hclose⟩ := bracketStep_eq_zero_iff.mp hc
      rw [if_neg hopen, if_neg hclose, ih, splitAtClose_plain hc, map_offset_cons]

theorem checkedDrop_append (a b : List Char) : checkedDrop (a ++ b) (byteLength a) = .ok b := by
  unfold checkedDrop
  rw [dropBytes_eq_some_iff.mpr ⟨a, rfl, rfl⟩]
  rfl

theorem checkedSlice_append (a w b : List Char) :
    checkedSlice (a ++ (w ++ b)) (byteLength a) (byteLength (a ++ w)) = .ok w := by
  unfold checkedSlice
  rw [slice?_eq_some_iff.mpr ⟨a, b, rfl, rfl, rfl⟩]
  rfl

/-- The search does not trap, and finds the partner. -/
theorem findClosing_eq (cs : List Char) (start : Nat) :
    findClosing cs start = .ok (closingOffset? cs start) := by
  unfold findClosing
  by_cases hopen : (utf8 cs)[start]? = some '('.toUInt8
  · obtain ⟨a, b, rfl, rfl⟩ := (getElem?_utf8_eq_some_iff (by decide)).mp hopen
    rw [if_pos hopen, checkedDrop_append, closingOffset?_open]
    exact scanClosing_succ 0 (byteLength a + 1) b
  · rw [if_neg hopen, closingOffset?_of_ne hopen]
    rfl

/-! ## Balanced texts that begin with a bracket -/

/-- A bracket that is open before a text is closed in it. -/
theorem Closes.splitAtClose_isSome {d : Nat} (h : Closes (d + 1) cs) :
    (splitAtClose d cs).isSome := by
  rw [Option.isSome_iff_ne_none]
  intro hnone
  have hle := count_take_le_of_splitAtClose hnone (byteLength cs)
  have hheight := h.height_eq
  rw [List.take_of_length_le (length_utf8 cs).le, count_utf8 (by decide),
    count_utf8 (by decide)] at hle
  rw [height_eq_count] at hheight
  omega

theorem Closes.exists_of_open (h : Closes 0 ('(' :: cs)) :
    ∃ inner rest, cs = inner ++ ')' :: rest ∧ Closes 0 inner := by
  have htail : Closes 1 cs := by
    cases h with
    | opening h => exact h
    | plain hc _ => exact absurd hc (by decide)
  obtain ⟨⟨inner, rest⟩, hsplit⟩ := Option.isSome_iff_exists.mp htail.splitAtClose_isSome
  exact ⟨inner, rest, splitAtClose_eq_some_iff.mp hsplit⟩

theorem closingOffset?_bracketed (ha : Closes 0 a) :
    closingOffset? ('(' :: (a ++ ')' :: b)) 0 = some (1 + byteLength a) := by
  have hpartner := closingOffset?_open (a := []) (b := a ++ ')' :: b)
  rw [splitAtClose_eq_some_iff.mpr ⟨rfl, ha⟩] at hpartner
  simpa [byteLength] using hpartner

theorem byteLength_bracketed (a b : List Char) :
    byteLength ('(' :: (a ++ ')' :: b)) = 1 + byteLength a + 1 + byteLength b := by
  have hopen : '('.utf8Size = 1 := rfl
  have hclose : ')'.utf8Size = 1 := rfl
  rw [byteLength, byteLength_append, byteLength, hopen, hclose]
  omega

theorem checkedSlice_bracketed (a b : List Char) :
    checkedSlice ('(' :: (a ++ ')' :: b)) 1 (1 + byteLength a) = .ok a :=
  checkedSlice_append ['('] a (')' :: b)

theorem checkedDrop_bracketed (a b : List Char) :
    checkedDrop ('(' :: (a ++ ')' :: b)) (1 + byteLength a + 1) = .ok b := by
  have happend := checkedDrop_append ('(' :: (a ++ [')'])) b
  rw [byteLength_bracketed] at happend
  simpa [byteLength] using happend

/-! ## Cuts -/

/-- A split at offsets does not trap, and gives the pieces. -/
theorem checkedSplit_eq (sep : Char) (cs : List Char) :
    checkedSplit sep cs = .ok (splitOutside? sep cs) := by
  unfold checkedSplit splitOutside?
  rw [cutAt?_separatorOffsets]
  split <;> rfl

theorem closes_of_mem_splitOutside? {sep : Char} {ws : List (List Char)}
    (h : splitOutside? sep cs = some ws) : ∀ w ∈ ws, Closes 0 w := by
  have hcloses := closes_of_splitOutside? h
  rw [splitOutside?, if_pos (isBalanced_iff.mpr hcloses)] at h
  cases h
  intro w hw
  exact (closes_free_of_mem_pieces hcloses w hw).1

/-- A piece of a sum that begins with a bracket goes on to its partner. -/
theorem exists_closingOffset?_of_mem_splitOutside? {sep : Char} {ws : List (List Char)}
    (h : splitOutside? sep cs = some ws) {w : List Char} (hw : w ∈ ws)
    (hopen : w.head? = some '(') : ∃ stop, closingOffset? w 0 = some stop := by
  obtain ⟨tail, rfl⟩ := List.head?_eq_some_iff.mp hopen
  obtain ⟨inner, rest, rfl, hinner⟩ := (closes_of_mem_splitOutside? h _ hw).exists_of_open
  exact ⟨1 + byteLength inner, closingOffset?_bracketed hinner⟩

/-- There is one piece more than there are separators. -/
theorem length_cutAt? {width start : Nat} {offsets : List Nat} {ws : List (List Char)}
    (h : cutAt? cs width start offsets = some ws) : ws.length = offsets.length + 1 := by
  induction offsets generalizing start ws with
  | nil =>
    obtain ⟨last, -, rfl⟩ := Option.map_eq_some_iff.mp h
    rfl
  | cons offset offsets ih =>
    rw [cutAt?] at h
    obtain ⟨piece, -, h⟩ := Option.bind_eq_some_iff.mp h
    obtain ⟨ws', hws, rfl⟩ := Option.map_eq_some_iff.mp h
    rw [List.length_cons, List.length_cons, ih hws]

/-- The separators of a text are none, one or several. One of them parts it in two, and both parts
    can be cut out. -/
theorem cut_cases (sep : Char) (cs : List Char) :
    (separatorOffsets sep cs = [] ∧ ∃ w, pieces sep cs = [w]) ∨
      (∃ offset w w', separatorOffsets sep cs = [offset] ∧ pieces sep cs = [w, w'] ∧
        checkedSlice cs 0 offset = .ok w ∧ checkedDrop cs (offset + sep.utf8Size) = .ok w') ∨
      ∃ offset offset' offsets w w' w'' ws,
        separatorOffsets sep cs = offset :: offset' :: offsets ∧
          pieces sep cs = w :: w' :: w'' :: ws := by
  have hcut := cutAt?_separatorOffsets sep cs
  have hlen := length_cutAt? hcut
  rcases hoffsets : separatorOffsets sep cs with _ | ⟨offset, _ | ⟨offset', offsets⟩⟩
  · rw [hoffsets] at hlen
    exact Or.inl ⟨rfl, List.length_eq_one_iff.mp hlen⟩
  · right
    left
    rw [hoffsets, cutAt?] at hcut
    obtain ⟨w, hslice, hcut⟩ := Option.bind_eq_some_iff.mp hcut
    obtain ⟨ws, hcut, hpieces⟩ := Option.map_eq_some_iff.mp hcut
    obtain ⟨w', hdrop, rfl⟩ := Option.map_eq_some_iff.mp hcut
    refine ⟨offset, w, w', rfl, hpieces.symm, ?_, ?_⟩
    · rw [checkedSlice, hslice]
      rfl
    · rw [checkedDrop, hdrop]
      rfl
  · right
    right
    rw [hoffsets] at hlen
    generalize pieces sep cs = ws at hlen
    rcases ws with _ | ⟨w, _ | ⟨w', _ | ⟨w'', ws⟩⟩⟩
    · simp at hlen
    · simp at hlen
    · simp at hlen
    · exact ⟨offset, offset', offsets, w, w', w'', ws, rfl, rfl⟩

end PolyCalc.Text
