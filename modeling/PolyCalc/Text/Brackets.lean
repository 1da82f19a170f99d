set_option autoImplicit false

/-! # Round brackets in a text

A character stands at bracket depth `d` if `d` more brackets are open than closed before it. Texts
are balanced if no bracket closes that was not opened and none stays open. A separator outside
brackets is one at depth zero; brackets are never separators. Offsets count bytes in UTF-8. -/

namespace PolyCalc.Text

/-! ## Depth -/

/-- The change of depth that a character makes. -/
def bracketStep (c : Char) : Int :=
  if c = '(' then 1 else if c = ')' then -1 else 0

/-- Whether a text closes exactly the `d` brackets that are open before it and those of its own. -/
def balancedFrom : Nat → List Char → Bool
  | d, [] => d == 0
  | d, c :: cs =>
    if c = '(' then balancedFrom (d + 1) cs
    else if c = ')' then
      match d with
      | 0 => false
      | d + 1 => balancedFrom d cs
    else balancedFrom d cs

/-- Whether the brackets of a text are balanced. -/
def isBalanced (cs : List Char) : Bool := balancedFrom 0 cs

/-! ## Separators outside brackets -/

/-- Whether a character separates at the given depth. -/
def separates (sep : Char) (depth : Int) (c : Char) : Bool :=
  c == sep && depth == 0 && bracketStep c == 0

/-- The offsets at which `sep` separates, in a text that begins at the given depth and offset. -/
def separatorOffsetsFrom (sep : Char) : Int → Nat → List Char → List Nat
  | _, _, [] => []
  | d, offset, c :: cs =>
    let later := separatorOffsetsFrom sep (d + bracketStep c) (offset + c.utf8Size) cs
    if separates sep d c then offset :: later else later

/-- The offsets of a character outside brackets. -/
def separatorOffsets (sep : Char) (cs : List Char) : List Nat := separatorOffsetsFrom sep 0 0 cs

/-- Puts a character in front of the first piece. -/
def consPiece (c : Char) : List (List Char) → List (List Char)
  | [] => [[c]]
  | w :: ws => (c :: w) :: ws

/-- The pieces between separators of a text that begins at the given depth. -/
def piecesFrom (sep : Char) : Int → List Char → List (List Char)
  | _, [] => [[]]
  | d, c :: cs =>
    if separates sep d c then [] :: piecesFrom sep d cs
    else consPiece c (piecesFrom sep (d + bracketStep c) cs)

/-- The pieces of a text between separators outside brackets. -/
def pieces (sep : Char) (cs : List Char) : List (List Char) := piecesFrom sep 0 cs

/-- Splits a balanced text at the separators outside brackets. -/
def splitOutside? (sep : Char) (cs : List Char) : Option (List (List Char)) :=
  if isBalanced cs then some (pieces sep cs) else none

/-! ## The partner of a bracket -/

/-- What stands before and after the bracket that closes the first of `d + 1` open ones. -/
def splitAtClose : Nat → List Char → Option (List Char × List Char)
  | _, [] => none
  | d, c :: cs =>
    if c = ')' then
      match d with
      | 0 => some ([], cs)
      | d + 1 => (splitAtClose d cs).map (fun (inner, rest) => (c :: inner, rest))
    else
      (splitAtClose (if c = '(' then d + 1 else d) cs).map
        (fun (inner, rest) => (c :: inner, rest))

/-- The length of a text in bytes. -/
def byteLength : List Char → Nat
  | [] => 0
  | c :: cs => c.utf8Size + byteLength cs

/-- What is left of a text after `n` bytes, if a character begins there. -/
def dropBytes : List Char → Nat → Option (List Char)
  | cs, 0 => some cs
  | [], _ + 1 => none
  | c :: cs, n + 1 => if c.utf8Size ≤ n + 1 then dropBytes cs (n + 1 - c.utf8Size) else none

/-- The offset of the bracket that closes the one at `start`, if there is one at `start` and it is
    closed. -/
def closingOffset? (cs : List Char) (start : Nat) : Option Nat :=
  match dropBytes cs start with
  | some ('(' :: rest) => (splitAtClose 0 rest).map (fun (inner, _) => start + 1 + byteLength inner)
  | _ => none

end PolyCalc.Text
