set_option autoImplicit false

/-! # Reading UTF-8

Bytes are read from left to right by a machine that holds the part of a character it has seen. A
part that cannot be completed is malformed, and so is a byte that begins no character; the byte
that breaks a part begins anew. -/

namespace PolyCalc.Text

/-- The part of a character that was read: how many more bytes are due, the range of the next one,
    and the bits so far. -/
structure Utf8Part where
  due : Nat
  lo : UInt8
  hi : UInt8
  bits : Nat

/-- What a byte means at the start of a character. -/
inductive Utf8Start where
  /-- A whole character. -/
  | whole (c : Char)
  /-- The first byte of a longer character. -/
  | opens (part : Utf8Part)
  /-- No character begins so. -/
  | malformed

/-- Classifies a byte at the start of a character. Overlong forms, surrogates and numbers past the
    last code point are excluded by the range of the second byte. -/
def Utf8Start.ofByte (b : UInt8) : Utf8Start :=
  if b < 0x80 then .whole (Char.ofNat b.toNat)
  else if b < 0xC2 then .malformed
  else if b < 0xE0 then .opens ⟨1, 0x80, 0xBF, b.toNat - 0xC0⟩
  else if b = 0xE0 then .opens ⟨2, 0xA0, 0xBF, 0⟩
  else if b = 0xED then .opens ⟨2, 0x80, 0x9F, 0xD⟩
  else if b < 0xF0 then .opens ⟨2, 0x80, 0xBF, b.toNat - 0xE0⟩
  else if b = 0xF0 then .opens ⟨3, 0x90, 0xBF, 0⟩
  else if b < 0xF4 then .opens ⟨3, 0x80, 0xBF, b.toNat - 0xF0⟩
  else if b = 0xF4 then .opens ⟨3, 0x80, 0x8F, 4⟩
  else .malformed

/-- What a byte completes, if anything, and the part of a character that is then held, at the start
    of a character. Malformed stretches are `none`. -/
def beginChar (b : UInt8) : List (Option Char) × Option Utf8Part :=
  match Utf8Start.ofByte b with
  | .whole c => ([some c], none)
  | .opens part => ([], some part)
  | .malformed => ([none], none)

/-- What a byte completes, if anything, and the part that is held after it. -/
def stepUtf8 : Option Utf8Part → UInt8 → List (Option Char) × Option Utf8Part
  | none, b => beginChar b
  | some part, b =>
    if part.lo ≤ b ∧ b ≤ part.hi then
      let bits := part.bits * 64 + (b.toNat - 0x80)
      if part.due ≤ 1 then ([some (Char.ofNat bits)], none)
      else ([], some ⟨part.due - 1, 0x80, 0xBF, bits⟩)
    else (none :: (beginChar b).1, (beginChar b).2)

/-- Reads bytes after a part of a character, or after none. -/
def decodeFrom : Option Utf8Part → List UInt8 → List (Option Char)
  | none, [] => []
  | some _, [] => [none]
  | held, b :: bs => (stepUtf8 held b).1 ++ decodeFrom (stepUtf8 held b).2 bs

/-- The characters of a text, if all of it is well-formed. -/
def decodeUtf8? (bs : List UInt8) : Option (List Char) := (decodeFrom none bs).mapM id

/-- The characters of a text, with the replacement character for each malformed stretch. -/
def decodeUtf8Lossy (bs : List UInt8) : List Char :=
  (decodeFrom none bs).map (fun c => c.getD '\uFFFD')

end PolyCalc.Text
