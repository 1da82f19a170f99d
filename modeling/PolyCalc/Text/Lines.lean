set_option autoImplicit false

/-! # Lines

A line break ends a line, so what follows the last one is a line only if it is not empty. -/

namespace PolyCalc.Text

variable {α : Type} [DecidableEq α]

/-- The lines that a line break ends, and what follows the last line break. -/
def breakLines (newline : α) : List α → List (List α) × List α
  | [] => ([], [])
  | c :: cs =>
    if c = newline then ([] :: (breakLines newline cs).1, (breakLines newline cs).2)
    else
      match breakLines newline cs with
      | ([], rest) => ([], c :: rest)
      | (line :: lines, rest) => ((c :: line) :: lines, rest)

/-- The lines of a text, without their line breaks. -/
def splitLines (newline : α) (cs : List α) : List (List α) :=
  match breakLines newline cs with
  | (lines, []) => lines
  | (lines, rest) => lines ++ [rest]

/-- A text without one occurrence of `c` at its end. -/
def dropFinal (c : α) (cs : List α) : List α :=
  if cs.getLast? = some c then cs.dropLast else cs

end PolyCalc.Text
