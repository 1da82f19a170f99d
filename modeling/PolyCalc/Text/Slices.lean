import PolyCalc.Text.Brackets

set_option autoImplicit false

/-! # Slices of a text

A slice of a text is given by two byte offsets. There is one only if the offsets are in order, lie
within the text and no character stands across one of them. Cutting at offsets asks for one slice
after the other, and fails if one of them does not exist. -/

namespace PolyCalc.Text

/-- The first `n` bytes of a text, if they are whole characters. -/
def takeBytes : List Char → Nat → Option (List Char)
  | _, 0 => some []
  | [], _ + 1 => none
  | c :: cs, n + 1 =>
    if c.utf8Size ≤ n + 1 then (takeBytes cs (n + 1 - c.utf8Size)).map (c :: ·) else none

/-- The text from the offset `start` up to the offset `stop`. -/
def slice? (cs : List Char) (start stop : Nat) : Option (List Char) :=
  if start ≤ stop then (dropBytes cs start).bind (fun rest => takeBytes rest (stop - start))
  else none

/-- The slices of a text before, between and after separators of `width` bytes at the given
    offsets. The first slice begins at `start`. -/
def cutAt? (cs : List Char) (width : Nat) : (start : Nat) → List Nat → Option (List (List Char))
  | start, [] => (dropBytes cs start).map (fun last => [last])
  | start, offset :: offsets =>
    (slice? cs start offset).bind
      (fun piece => (cutAt? cs width (offset + width) offsets).map (piece :: ·))

end PolyCalc.Text
