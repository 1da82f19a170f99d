import PolyCalc.Log.Trace

set_option autoImplicit false

/-! # A tour of the calculator

Four short examples: arithmetic, substitution, a script, and degrees. Each gives lines to be shown
and log records of its steps. -/

namespace PolyCalc.Tour

/-- What an example shows and logs. -/
structure Stop where
  lines : List String
  records : List LogRecord

/-- A record about a step. -/
def note (message : String) : LogRecord := ⟨.info, message⟩

/-- Reads a polynomial of an example, or zero if it is none, with the records of reading it. -/
def read (text : String) : Poly × List LogRecord :=
  let record := Poly.parseRecord defaultDepthLimit text.toList 0
  match Poly.parse defaultDepthLimit text.toList 0 with
  | .ok p => (p, [record])
  | .error e => (Poly.zero, [record, ⟨.warn, e.message⟩])

/-- Arithmetic on `1 + x₀` and `x₀ · x₁`. -/
def arithmetic : Stop :=
  let (p, pRecords) := read "(1,0)+(1,1)"
  let (q, qRecords) := read "((1,1),1)"
  { lines := [p + q, p * q, -p, p.pow 3].map toString
    records := pRecords ++ qRecords ++ [note ("p = " ++ toString p ++ ", q = " ++ toString q)] }

/-- Substitution in `x₀² + x₁`: first `x₀ + 1` and `2` for the variables, then `3` for the first. -/
def substitution : Stop :=
  let p := (Poly.var 0).pow 2 + Poly.var 1
  let replacements := [Poly.var 0 + Poly.coeff 1, Poly.coeff 2]
  let composed := p.compose replacements
  let evaluated := p.evalFirst 3
  { lines := [toString composed, toString evaluated]
    records :=
      [note ("p = " ++ toString p)] ++ p.composeRecords replacements ++
        [note ("p(x_0 + 1, 2) = " ++ toString composed),
          note ("p(3, x_0) = " ++ toString evaluated)] }

/-- A script that squares `1 + x₀`, evaluates the square, and pops once too often. -/
def script : Stop :=
  let bytes := "(1,0)+(1,1)\nCLONE\nMUL\nPRINT\nDEG\nAT 2\nPRINT\nPOP\nPOP\n".toUTF8.toList
  let calculator := Calculator.new defaultDepthLimit
  let t := calculator.run bytes
  { lines := t.outputs.map String.ofList ++ t.errorLines
    records :=
      calculator.runRecords bytes ++ [note ("stdout:\n" ++ t.stdout ++ "stderr:\n" ++ t.stderr)] }

/-- Degrees of `(1 + x₁) · x₀² - 3 · x₁⁴ · x₀⁵`. -/
def degrees : Stop :=
  let (p, pRecords) := read "((1,0)+(1,1),2)+((-3,4),5)"
  let shown (d : Int32) : String := toString d.toInt
  { lines := [shown p.degree, shown (p.degreeIn 0), shown (p.degreeIn 1)]
    records :=
      pRecords ++
        [note ("p = " ++ toString p ++ ", depth " ++ toString p.depth),
          note ("degree in x_0: " ++ shown (p.degreeIn 0)),
          note ("degree in x_1: " ++ shown (p.degreeIn 1))] }

/-- The example with the given number, counted from zero. -/
def visit (number : Nat) : Stop :=
  match number with
  | 0 => arithmetic
  | 1 => substitution
  | 2 => script
  | 3 => degrees
  | _ => ⟨[], [⟨.warn, "no example number " ++ toString number⟩]⟩

end PolyCalc.Tour
