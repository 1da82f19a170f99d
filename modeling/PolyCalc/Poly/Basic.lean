set_option autoImplicit false

/-! # Sparse polynomials in nested form

A polynomial in the variables `x₀, x₁, x₂, …` is a number, or a sum of monomials `p · x₀ᵉ` whose
coefficients `p` are polynomials in the remaining variables, renumbered from zero. Numbers are
64-bit integers that wrap on overflow, exponents are 32-bit unsigned integers that wrap too.

Any tree of this shape is a `Poly`: sums may be empty, unsorted, or carry zeros. `Poly.coef` says
what such a tree means; `Poly.isCanonical` singles out one tree for each meaning. -/

namespace PolyCalc

/-- A monomial: a coefficient times a power of the variable of its level. -/
@[ext]
structure Mono (α : Type) where
  coef : α
  exp : UInt32
  deriving DecidableEq

/-- A polynomial: a number, or a sum of monomials over the variable of its level, whose
    coefficients are polynomials over the variables after it. -/
inductive Poly where
  | coeff (c : Int64)
  | sum (monos : List (Mono Poly))

namespace Poly

/-! ## Equality of trees -/

mutual

/-- Decides whether two polynomials are the same tree. -/
def decEq : (p q : Poly) → Decidable (p = q)
  | .coeff a, .coeff b =>
    if h : a = b then isTrue (h ▸ rfl) else isFalse (fun e => h (by cases e; rfl))
  | .coeff _, .sum _ => isFalse (by simp)
  | .sum _, .coeff _ => isFalse (by simp)
  | .sum ms, .sum ns =>
    match decEqMonos ms ns with
    | isTrue h => isTrue (h ▸ rfl)
    | isFalse h => isFalse (fun e => h (by cases e; rfl))

/-- Decides whether two lists of monomials are the same. -/
def decEqMonos : (ms ns : List (Mono Poly)) → Decidable (ms = ns)
  | [], [] => isTrue rfl
  | [], _ :: _ => isFalse (by simp)
  | _ :: _, [] => isFalse (by simp)
  | ⟨p, d⟩ :: ms, ⟨q, e⟩ :: ns =>
    match decEq p q, decEqMonos ms ns with
    | isTrue hp, isTrue hm =>
      if he : d = e then isTrue (by simp [hp, hm, he]) else isFalse (by simp [he])
    | isFalse hp, _ => isFalse (by simp [hp])
    | _, isFalse hm => isFalse (by simp [hm])

end

instance : DecidableEq Poly := decEq

/-! ## Constants and variables -/

/-- The polynomial zero in its canonical form. -/
def zero : Poly := .coeff 0

instance : Inhabited Poly := ⟨zero⟩

/-- The variable `x_k`. -/
def var : Nat → Poly
  | 0 => .sum [⟨.coeff 1, 1⟩]
  | k + 1 => .sum [⟨var k, 0⟩]

/-! ## Parts of a polynomial -/

/-- Whether the polynomial is written as a number. -/
def isConstant : Poly → Bool
  | .coeff _ => true
  | .sum _ => false

/-- The number, if the polynomial is written as one. -/
def constant? : Poly → Option Int64
  | .coeff c => some c
  | .sum _ => none

/-- The monomials of a sum; a number has none. -/
def monos : Poly → List (Mono Poly)
  | .coeff _ => []
  | .sum ms => ms

/-- The polynomial as a list of monomials: a number other than zero is its own constant term. -/
def toMonos : Poly → List (Mono Poly)
  | .coeff c => if c = 0 then [] else [⟨.coeff c, 0⟩]
  | .sum ms => ms

mutual

/-- Whether no number in the tree differs from zero. -/
def isZero : Poly → Bool
  | .coeff c => c == 0
  | .sum ms => allZero ms

/-- Whether all coefficients in a list of monomials are zero. -/
def allZero : List (Mono Poly) → Bool
  | [] => true
  | ⟨p, _⟩ :: ms => isZero p && allZero ms

end

mutual

/-- The number of nested sums, which is the number of variables that the tree ranges over. -/
def depth : Poly → Nat
  | .coeff _ => 0
  | .sum ms => 1 + depthMonos ms

/-- The greatest depth of a coefficient in a list of monomials. -/
def depthMonos : List (Mono Poly) → Nat
  | [] => 0
  | ⟨p, _⟩ :: ms => max (depth p) (depthMonos ms)

end

/-! ## Meaning -/

mutual

/-- The coefficient of `x₀^e₀ · x₁^e₁ · …` in a polynomial, for the exponents `[e₀, e₁, …]`
    followed by zeros. Monomials of one exponent add up. -/
def coef : Poly → List UInt32 → Int64
  | .coeff c, es => if es.all (· == 0) then c else 0
  | .sum ms, es => coefMonos ms (es.headD 0) es.tail

/-- The sum of the coefficients at `es` of those monomials that have the exponent `e`. -/
def coefMonos : List (Mono Poly) → UInt32 → List UInt32 → Int64
  | [], _, _ => 0
  | ⟨p, d⟩ :: ms, e, es => (if d = e then coef p es else 0) + coefMonos ms e es

end

/-! ## Induction -/

mutual

/-- Induction over a polynomial: the statement for a sum may use it for the coefficients of its
    monomials. -/
theorem induct {motive : Poly → Prop} (coeff : ∀ c, motive (.coeff c))
    (sum : ∀ ms : List (Mono Poly), (∀ m ∈ ms, motive m.coef) → motive (.sum ms)) :
    ∀ p, motive p
  | .coeff c => coeff c
  | .sum ms => sum ms (inductMonos coeff sum ms)

/-- What induction over a polynomial says of the coefficients in a list. -/
theorem inductMonos {motive : Poly → Prop} (coeff : ∀ c, motive (.coeff c))
    (sum : ∀ ms : List (Mono Poly), (∀ m ∈ ms, motive m.coef) → motive (.sum ms)) :
    ∀ ms : List (Mono Poly), ∀ m ∈ ms, motive m.coef
  | [], _, h => absurd h (by simp)
  | ⟨p, e⟩ :: ms, m, h =>
    match List.mem_cons.mp h with
    | .inl here => by
      have hp := induct coeff sum p
      rw [here]
      exact hp
    | .inr later => inductMonos coeff sum ms m later

end

/-! ## Lists of monomials, one by one -/

theorem allZero_eq_all (ms : List (Mono Poly)) : allZero ms = ms.all (·.coef.isZero) := by
  induction ms with
  | nil => rfl
  | cons m ms ih => simp only [allZero, List.all_cons, ih]

theorem isZero_sum {ms : List (Mono Poly)} :
    (Poly.sum ms).isZero = true ↔ ∀ m ∈ ms, m.coef.isZero = true := by
  simp only [isZero, allZero_eq_all, List.all_eq_true]

theorem depthMonos_le_iff {ms : List (Mono Poly)} {d : Nat} :
    depthMonos ms ≤ d ↔ ∀ m ∈ ms, m.coef.depth ≤ d := by
  induction ms with
  | nil => simp [depthMonos]
  | cons m ms ih => simp only [depthMonos, Nat.max_le, ih, List.forall_mem_cons]

theorem coefMonos_cons (m : Mono Poly) (ms : List (Mono Poly)) (e : UInt32) (es : List UInt32) :
    coefMonos (m :: ms) e es = (if m.exp = e then m.coef.coef es else 0) + coefMonos ms e es := by
  obtain ⟨p, d⟩ := m
  rfl

end Poly

end PolyCalc
