import PolyCalc.Poly.Canonical

set_option autoImplicit false

/-! # Arithmetic of polynomials

Sum, negative, difference, product and power. Every operation is defined on all trees and gives a
canonical result on canonical operands. Coefficients wrap at 64 bits and exponents at 32. -/

namespace PolyCalc

/-! ## Powers by squaring -/

/-- The product of `acc` and the `n`-th power of `base`, for `n < 2 ^ width`. The binary digits of
    `n` are read from the lowest, and the base is squared only while digits remain. -/
def powBySquaring {α : Type} (mul : α → α → α) : (width n : Nat) → (acc base : α) → α
  | 0, _, acc, _ => acc
  | width + 1, n, acc, base =>
    let acc := if n % 2 = 1 then mul acc base else acc
    if n / 2 = 0 then acc else powBySquaring mul width (n / 2) acc (mul base base)

/-- The wrapping power of a number. -/
def powInt64 (x : Int64) (n : UInt32) : Int64 :=
  powBySquaring (· * ·) 32 n.toNat 1 x

namespace Poly

/-! ## Sums -/

/-- Addition of polynomials whose depth is at most the given bound. -/
def addWithin : Nat → Poly → Poly → Poly
  | _, .coeff a, .coeff b => .coeff (a + b)
  | 0, p, _ => p
  | d + 1, .coeff c, .sum ms => canonicalWith (addWithin d) (addConstant (addWithin d) c ms)
  | d + 1, .sum ms, .coeff c => canonicalWith (addWithin d) (addConstant (addWithin d) c ms)
  | d + 1, .sum ms, .sum ns => canonicalWith (addWithin d) (Mono.merge (addWithin d) ms ns)
where
  /-- Adds a number to the first monomial of a list if that is a constant term, and puts a constant
      term in front otherwise. -/
  addConstant (add : Poly → Poly → Poly) (c : Int64) : List (Mono Poly) → List (Mono Poly)
    | [] => [⟨.coeff c, 0⟩]
    | m :: ms =>
      if m.exp = 0 then ⟨add m.coef (.coeff c), m.exp⟩ :: ms else ⟨.coeff c, 0⟩ :: m :: ms

/-- The sum of two polynomials. -/
def add (p q : Poly) : Poly := addWithin (max p.depth q.depth) p q

/-- Sorts and adds up monomials with canonical coefficients into a canonical polynomial. -/
def ofCanonicalMonos (ms : List (Mono Poly)) : Poly := canonicalWith add ms

mutual

/-- The negative of a polynomial, monomial by monomial. -/
def neg : Poly → Poly
  | .coeff c => .coeff (-c)
  | .sum ms => .sum (negMonos ms)

/-- The negatives of the monomials of a list. -/
def negMonos : List (Mono Poly) → List (Mono Poly)
  | [] => []
  | ⟨p, e⟩ :: ms => ⟨neg p, e⟩ :: negMonos ms

end

/-- The difference of two polynomials. -/
def sub (p q : Poly) : Poly := add p (neg q)

/-! ## Products and powers -/

mutual

/-- Multiplies every number in a polynomial by `c`. Numbers other than zero may have the product
    zero, so the result is brought into canonical form at every level. -/
def scale (c : Int64) : Poly → Poly
  | .coeff a => .coeff (a * c)
  | .sum ms => if c = 0 then zero else ofCanonicalMonos (scaleMonos c ms)

/-- Multiplies the coefficients of a list of monomials by `c`. -/
def scaleMonos (c : Int64) : List (Mono Poly) → List (Mono Poly)
  | [] => []
  | ⟨p, e⟩ :: ms => ⟨scale c p, e⟩ :: scaleMonos c ms

end

mutual

/-- The product of two polynomials. -/
def mul : Poly → Poly → Poly
  | .coeff c, q => scale c q
  | .sum ms, .coeff c => scale c (.sum ms)
  | .sum ms, .sum ns => ofCanonicalMonos (mulMonos ms ns)

/-- The products of each monomial of the first list with each one of the second. -/
def mulMonos : List (Mono Poly) → List (Mono Poly) → List (Mono Poly)
  | [], _ => []
  | ⟨p, e⟩ :: ms, ns => ns.map (fun n => ⟨mul p n.coef, e + n.exp⟩) ++ mulMonos ms ns

end

/-- The `n`-th power of a polynomial; every zeroth power is one. -/
def pow (p : Poly) (n : UInt32) : Poly :=
  match p with
  | .coeff c => .coeff (powInt64 c n)
  | .sum ms => powBySquaring mul 32 n.toNat (.coeff 1) (.sum ms)

/-! ## Canonical form of any tree -/

mutual

/-- The canonical form of a polynomial: coefficients first, so that one which becomes a number can
    in turn make its sum a number. -/
def normalize : Poly → Poly
  | .coeff c => .coeff c
  | .sum ms => ofCanonicalMonos (normalizeMonos ms)

/-- Brings the coefficients of a list of monomials into canonical form. -/
def normalizeMonos : List (Mono Poly) → List (Mono Poly)
  | [] => []
  | ⟨p, e⟩ :: ms => ⟨normalize p, e⟩ :: normalizeMonos ms

end

/-- The canonical polynomial with the given monomials, which may come in any order, repeat
    exponents, and have coefficients of any form. -/
def ofMonos (ms : List (Mono Poly)) : Poly := normalize (.sum ms)

/-! ## Lists of monomials, one by one -/

theorem negMonos_eq_map (ms : List (Mono Poly)) :
    negMonos ms = ms.map (fun m => ⟨m.coef.neg, m.exp⟩) := by
  induction ms with
  | nil => rfl
  | cons m ms ih => simp only [negMonos, List.map_cons, ih]

theorem scaleMonos_eq_map (c : Int64) (ms : List (Mono Poly)) :
    scaleMonos c ms = ms.map (fun m => ⟨m.coef.scale c, m.exp⟩) := by
  induction ms with
  | nil => rfl
  | cons m ms ih => simp only [scaleMonos, List.map_cons, ih]

theorem normalizeMonos_eq_map (ms : List (Mono Poly)) :
    normalizeMonos ms = ms.map (fun m => ⟨m.coef.normalize, m.exp⟩) := by
  induction ms with
  | nil => rfl
  | cons m ms ih => simp only [normalizeMonos, List.map_cons, ih]

theorem mulMonos_eq_flatMap (ms ns : List (Mono Poly)) :
    mulMonos ms ns =
      ms.flatMap (fun m => ns.map (fun n => ⟨m.coef.mul n.coef, m.exp + n.exp⟩)) := by
  induction ms with
  | nil => rfl
  | cons m ms ih => simp only [mulMonos, List.flatMap_cons, ih]

/-! ## Operators -/

instance : Add Poly := ⟨add⟩
instance : Neg Poly := ⟨neg⟩
instance : Sub Poly := ⟨sub⟩
instance : Mul Poly := ⟨mul⟩

end Poly

end PolyCalc
