import PolyCalc.Poly.Basic

set_option autoImplicit false

/-! # Canonical form

In a canonical polynomial the exponents of every sum increase strictly, no coefficient is zero,
and no sum is empty or a lone constant term `(c, 0)`; so zero is the number zero.

A list of monomials is brought into this form in four steps: sort by exponent, add up what has
one exponent, drop the zeros, and write a lone constant term as a number. The addition of
coefficients is a parameter of the second step, because the addition of polynomials itself ends
with these steps. -/

namespace PolyCalc

/-! ## Lists of monomials with coefficients of any kind -/

namespace Mono

variable {α : Type}

/-- Inserts a monomial in front of the first one whose exponent is not smaller. -/
def insertByExp (m : Mono α) : List (Mono α) → List (Mono α)
  | [] => [m]
  | n :: ns => if m.exp ≤ n.exp then m :: n :: ns else n :: insertByExp m ns

/-- Sorts monomials by exponent; those of one exponent keep their order. -/
def sortByExp : List (Mono α) → List (Mono α)
  | [] => []
  | m :: ms => insertByExp m (sortByExp ms)

/-- Puts a monomial in front of a list whose neighbours of one exponent get added up, from left
    to right. -/
def addRun (add : α → α → α) (m : Mono α) : List (Mono α) → List (Mono α)
  | [] => [m]
  | n :: ns =>
    if m.exp = n.exp then addRun add ⟨add m.coef n.coef, m.exp⟩ ns else m :: addRun add n ns

/-- Adds up neighbours of one exponent. -/
def addRuns (add : α → α → α) : List (Mono α) → List (Mono α)
  | [] => []
  | m :: ms => addRun add m ms

/-- Places `m` into a list: smaller exponents pass, an equal one is added. What follows is left to
    `rest`. -/
def mergeHead (add : α → α → α) (m : Mono α) (rest : List (Mono α) → List (Mono α)) :
    List (Mono α) → List (Mono α)
  | [] => m :: rest []
  | n :: ns =>
    if m.exp = n.exp then ⟨add m.coef n.coef, m.exp⟩ :: rest ns
    else if m.exp < n.exp then m :: rest (n :: ns)
    else n :: mergeHead add m rest ns

/-- Merges two lists by comparing their heads: the smaller exponent passes, equal ones are added.
    Two lists with strictly increasing exponents give a third. -/
def merge (add : α → α → α) : List (Mono α) → List (Mono α) → List (Mono α)
  | [], ns => ns
  | m :: ms, ns => mergeHead add m (merge add ms) ns

/-- Whether the exponents of a list increase strictly. -/
def increasing : List (Mono α) → Bool
  | [] => true
  | [_] => true
  | m :: n :: ms => decide (m.exp < n.exp) && increasing (n :: ms)

end Mono

namespace Poly

/-! ## Writing a sum -/

/-- Whether a list of monomials is a lone constant term `(c, 0)`. -/
def isLoneConstant : List (Mono Poly) → Bool
  | [⟨.coeff _, e⟩] => e == 0
  | _ => false

/-- The polynomial with the given monomials, where no monomials make zero and a lone constant term
    makes a number. -/
def ofReduced : List (Mono Poly) → Poly
  | [] => zero
  | [⟨.coeff c, e⟩] => if e = 0 then .coeff c else .sum [⟨.coeff c, e⟩]
  | ms => .sum ms

/-- Sorts and adds up monomials with canonical coefficients, and drops what is zero. -/
def canonicalWith (add : Poly → Poly → Poly) (ms : List (Mono Poly)) : Poly :=
  ofReduced ((Mono.addRuns add (Mono.sortByExp ms)).filter (fun m => !m.coef.isZero))

/-! ## The canonical trees -/

mutual

/-- Whether a polynomial is in canonical form. -/
def isCanonical : Poly → Bool
  | .coeff _ => true
  | .sum ms => !ms.isEmpty && Mono.increasing ms && allCanonical ms && !isLoneConstant ms

/-- Whether all coefficients in a list are canonical and none is zero. -/
def allCanonical : List (Mono Poly) → Bool
  | [] => true
  | ⟨p, _⟩ :: ms => !p.isZero && isCanonical p && allCanonical ms

end

theorem allCanonical_eq_all (ms : List (Mono Poly)) :
    allCanonical ms = ms.all (fun m => !m.coef.isZero && m.coef.isCanonical) := by
  induction ms with
  | nil => rfl
  | cons m ms ih => simp only [allCanonical, List.all_cons, ih]

/-- A sum is canonical if its exponents increase, its coefficients are canonical and not zero, and
    it is neither empty nor a lone constant. -/
theorem isCanonical_sum {ms : List (Mono Poly)} :
    (Poly.sum ms).isCanonical = true ↔
      ms ≠ [] ∧ Mono.increasing ms = true ∧
        (∀ m ∈ ms, m.coef.isZero = false ∧ m.coef.isCanonical = true) ∧
          isLoneConstant ms = false := by
  simp [isCanonical, allCanonical_eq_all, and_assoc]

end Poly

end PolyCalc
