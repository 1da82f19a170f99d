set_option autoImplicit false

/-! # White space

The Unicode property `White_Space`, and texts without it at their ends. -/

namespace PolyCalc.Text

/-- Whether a character is white space. -/
def isBlank (c : Char) : Bool :=
  [(0x9, 0xD), (0x20, 0x20), (0x85, 0x85), (0xA0, 0xA0), (0x1680, 0x1680), (0x2000, 0x200A),
    (0x2028, 0x2029), (0x202F, 0x202F), (0x205F, 0x205F), (0x3000, 0x3000)].any
    (fun (first, last) => first ≤ c.toNat && c.toNat ≤ last)

/-- A text without the white space at its beginning. -/
def trimStart (cs : List Char) : List Char := cs.dropWhile isBlank

/-- A text without the white space at its end. -/
def trimEnd (cs : List Char) : List Char := (cs.reverse.dropWhile isBlank).reverse

/-- A text without the white space at both ends. -/
def trim (cs : List Char) : List Char := trimEnd (trimStart cs)

/-! ## Lengths -/

theorem length_dropWhile_le {α : Type} (f : α → Bool) (xs : List α) :
    (xs.dropWhile f).length ≤ xs.length :=
  (List.dropWhile_sublist f).length_le

/-- Trimming makes no text longer. -/
theorem length_trim_le (cs : List Char) : (trim cs).length ≤ cs.length := by
  simp only [trim, trimEnd, trimStart, List.length_reverse]
  have h := length_dropWhile_le isBlank (cs.dropWhile isBlank).reverse
  have h' := length_dropWhile_le isBlank cs
  simp only [List.length_reverse] at h
  omega

end PolyCalc.Text
