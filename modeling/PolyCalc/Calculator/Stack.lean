import PolyCalc.Poly.Basic

set_option autoImplicit false

/-! # The operand stack

A stack of polynomials. What takes operands from it gives `none` if there are too few. -/

namespace PolyCalc

/-- A stack of polynomials, the topmost first. -/
structure Stack where
  polys : List Poly
  deriving DecidableEq

namespace Stack

/-- The stack without any polynomial. -/
def empty : Stack := ⟨[]⟩

/-- The number of polynomials on the stack. -/
def size (s : Stack) : Nat := s.polys.length

/-- Whether there is no polynomial on the stack. -/
def isEmpty (s : Stack) : Bool := s.polys.isEmpty

/-- Puts a polynomial on top. -/
def push (s : Stack) (p : Poly) : Stack := ⟨p :: s.polys⟩

/-- The topmost polynomial. -/
def top? (s : Stack) : Option Poly := s.polys.head?

/-- Takes the topmost polynomial off. -/
def pop? (s : Stack) : Option (Poly × Stack) :=
  match s.polys with
  | p :: ps => some (p, ⟨ps⟩)
  | [] => none

/-- The two topmost polynomials, the topmost first. -/
def topTwo? (s : Stack) : Option (Poly × Poly) :=
  match s.polys with
  | p :: q :: _ => some (p, q)
  | _ => none

/-- Takes the two topmost polynomials off, the topmost first. -/
def popTwo? (s : Stack) : Option (Poly × Poly × Stack) :=
  match s.polys with
  | p :: q :: ps => some (p, q, ⟨ps⟩)
  | _ => none

/-- Takes the `k` topmost polynomials off, the topmost last. -/
def popMany? (s : Stack) (k : Nat) : Option (List Poly × Stack) :=
  if k ≤ s.polys.length then some ((s.polys.take k).reverse, ⟨s.polys.drop k⟩) else none

end Stack

end PolyCalc
