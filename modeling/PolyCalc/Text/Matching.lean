import PolyCalc.Text.Slices

set_option autoImplicit false

/-! # The partner of a bracket by offsets

The search for the partner of a bracket once more, as a scan with one count of open brackets. A
count is never negative, so to take one from zero has no result, and neither has a slice that is
out of range or that begins or ends inside of a character: such a step traps. -/

namespace PolyCalc.Text

/-- The bytes of a text in UTF-8. -/
def utf8 (cs : List Char) : List UInt8 := cs.flatMap String.utf8EncodeChar

/-! ## Steps that may have no result -/

/-- Why a step has no result. -/
inductive Trap where
  /-- A count falls below zero. -/
  | underflow
  /-- Offsets are out of order or out of range, or lie inside of a character. -/
  | noSlice
  deriving DecidableEq

/-- What is left of `m` without `n`. -/
def checkedSub (m n : Nat) : Except Trap Nat :=
  if n ≤ m then .ok (m - n) else .error .underflow

/-- What was cut out of a text, if it could be cut. -/
def checkedCut {α : Type} : Option α → Except Trap α
  | some part => .ok part
  | none => .error .noSlice

/-- The text from the offset `start` on. -/
def checkedDrop (cs : List Char) (start : Nat) : Except Trap (List Char) :=
  checkedCut (dropBytes cs start)

/-- The text from the offset `start` up to the offset `stop`. -/
def checkedSlice (cs : List Char) (start stop : Nat) : Except Trap (List Char) :=
  checkedCut (slice? cs start stop)

/-- Splits a balanced text at the offsets of the separators outside brackets. -/
def checkedSplit (sep : Char) (cs : List Char) : Except Trap (Option (List (List Char))) :=
  if isBalanced cs then
    (checkedCut (cutAt? cs sep.utf8Size 0 (separatorOffsets sep cs))).map some
  else .ok none

/-! ## The search -/

/-- The offset at which the count of open brackets falls to zero, in a text that begins at `offset`
    with `depth` of them open. -/
def scanClosing : (depth offset : Nat) → List Char → Except Trap (Option Nat)
  | _, _, [] => .ok none
  | depth, offset, c :: cs =>
    if c = '(' then scanClosing (depth + 1) (offset + c.utf8Size) cs
    else if c = ')' then do
      let depth ← checkedSub depth 1
      if depth = 0 then return some offset
      else scanClosing depth (offset + c.utf8Size) cs
    else scanClosing depth (offset + c.utf8Size) cs

/-- The offset of the bracket that closes the one at `start`, if the byte there is a bracket and it
    is closed. -/
def findClosing (cs : List Char) (start : Nat) : Except Trap (Option Nat) :=
  if (utf8 cs)[start]? = some '('.toUInt8 then do
    let rest ← checkedDrop cs start
    scanClosing 0 start rest
  else return none

end PolyCalc.Text
