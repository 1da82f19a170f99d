import PolyCalc.Proofs.Poly.Evaluation

set_option autoImplicit false

/-! # Paths

Every number in a tree is reached from the root by one path, which meets an exponent at each level.
The paths are what a tree says before any like terms are collected: it stands for the sum of their
terms. Hence all terms are found on them (`exists_path_of_mem_terms`), and for numbers in place of
the variables the tree has the sum of their values (`subst_expand_eq_value`).

Both ways to calculate with numbers arrive at that sum: one variable after the other, where levels
may disappear on the way, and all of them at once
(`successive_and_simultaneous_evaluation`). -/

namespace PolyCalc

open Wrapping

namespace Poly

/-- A way from the root of a tree to a number in it. -/
structure Path where
  /-- The exponents on the way, that of `x₀` first. -/
  exps : List UInt32
  /-- The number at the end. -/
  leaf : Int64

mutual

/-- All paths from the root of a tree to a number. -/
def paths : Poly → List Path
  | .coeff c => [⟨[], c⟩]
  | .sum ms => pathsMonos ms

/-- The paths that begin in the monomials of a list. -/
def pathsMonos : List (Mono Poly) → List Path
  | [] => []
  | ⟨p, e⟩ :: ms => (paths p).map (fun l => ⟨e :: l.exps, l.leaf⟩) ++ pathsMonos ms

end

theorem paths_coeff (c : Int64) : (coeff c).paths = [⟨[], c⟩] := rfl

theorem paths_sum (ms : List (Mono Poly)) :
    (sum ms).paths = ms.flatMap fun m => m.coef.paths.map fun l => ⟨m.exp :: l.exps, l.leaf⟩ := by
  rw [paths]
  induction ms with
  | nil => rfl
  | cons m ms ih => simp only [pathsMonos, List.flatMap_cons, ih]

theorem mem_paths_sum {ms : List (Mono Poly)} {m : Mono Poly} (hm : m ∈ ms) {l : Path}
    (hl : l ∈ m.coef.paths) : ⟨m.exp :: l.exps, l.leaf⟩ ∈ (sum ms).paths := by
  rw [paths_sum]
  exact List.mem_flatMap.mpr ⟨m, hm, List.mem_map_of_mem hl⟩

/-- The exponents of a term are those of a path. -/
theorem exists_path_of_mem_terms {p : Poly} {e : Exponents} (h : e ∈ p.terms) :
    ∃ l ∈ p.paths, l.exps.toFinsupp = e := by
  induction p using induct generalizing e with
  | coeff c =>
    refine ⟨⟨[], c⟩, ?_, ?_⟩
    · simp [paths_coeff]
    · rw [eq_zero_of_mem_terms_coeff h, List.toFinsupp_nil]
  | sum ms ih =>
    obtain ⟨d, e', rfl⟩ := e.exists_eq_cons
    obtain ⟨m, hm, rfl, he'⟩ := exists_of_cons_mem_terms h
    obtain ⟨l, hl, rfl⟩ := ih m hm he'
    refine ⟨_, mem_paths_sum hm hl, ?_⟩
    rw [Exponents.toFinsupp_eq_cons, List.headD_cons, List.tail_cons]

/-! ## Values -/

/-- The number at the end of the path, times `x₀^e₀ · x₁^e₁ · …` with the exponents on the way. -/
def Path.value (l : Path) (xs : List Int64) : Int64 :=
  l.leaf * (List.zipWith (fun x e => x ^ e.toNat) xs l.exps).prod

/-- The sum of the values of all paths. -/
def value (p : Poly) (xs : List Int64) : Int64 := (p.paths.map (·.value xs)).sum

theorem value_coeff (c : Int64) (xs : List Int64) : (coeff c).value xs = c := by
  simp [value, paths_coeff, Path.value]

theorem value_sum (ms : List (Mono Poly)) (x : Int64) (xs : List Int64) :
    (sum ms).value (x :: xs) = (ms.map fun m => x ^ m.exp.toNat * m.coef.value xs).sum := by
  have hpath (l : Path) (e : UInt32) :
      Path.value ⟨e :: l.exps, l.leaf⟩ (x :: xs) = x ^ e.toNat * l.value xs := by
    simp only [Path.value, List.zipWith_cons_cons, List.prod_cons, mul_left_comm]
  rw [value, paths_sum]
  induction ms with
  | nil => rfl
  | cons m ms ih =>
    simp only [List.flatMap_cons, List.map_append, List.sum_append, ih, List.map_map,
      Function.comp_def, hpath, List.sum_map_mul_left, List.map_cons, List.sum_cons, value]

/-- Numbers for all variables leave a number. -/
theorem subst_expand_eq_value {p : Poly} {xs : List Int64} (h : p.depth ≤ xs.length) :
    Expansion.subst (replacement (xs.map coeff)) p.expand = Expansion.const (p.value xs) := by
  induction p using induct generalizing xs with
  | coeff c => rw [expand_coeff, Expansion.subst_const, value_coeff]
  | sum ms ih =>
    cases xs with
    | nil => exact absurd h (layered_depth.not_sum ms)
    | cons x xs =>
      have hdepth := depth_sum_le_iff.mp h
      rw [subst_expand_sum, value_sum, map_list_sum, List.map_map, List.map_cons,
        replacement_cons_zero, replacement_cons_succ, expand_coeff]
      apply congrArg List.sum
      apply List.map_congr_left
      intro m hm
      rw [Function.comp_apply, ih m hm (hdepth m hm), map_mul, map_pow]

/-! ## Two ways to evaluate -/

theorem compose_eq_value {p : Poly} {xs : List Int64} (h : p.depth ≤ xs.length) :
    p.compose (xs.map coeff) = .coeff (p.value xs) := by
  apply eq_of_expand_eq (isCanonical_compose p _) rfl
  rw [expand_compose, subst_expand_eq_value h, expand_coeff]

/-- One step of evaluation keeps the value, whatever becomes of the levels. -/
theorem value_evalFirst {p : Poly} {x : Int64} {xs : List Int64} (h : p.depth ≤ xs.length + 1) :
    (p.evalFirst x).value xs = p.value (x :: xs) := by
  have hstep := subst_expand_evalFirst (replacement_cons_zero (coeff x) (xs.map coeff)) p
  have hconst : Expansion.const ((p.evalFirst x).value xs) =
      Expansion.const (p.value (x :: xs)) := by
    rw [← subst_expand_eq_value (depth_evalFirst_le h x), ← subst_expand_eq_value h]
    exact hstep
  exact Poly.coeff.inj (eq_of_expand_eq rfl rfl hconst)

theorem foldl_evalFirst_eq_value {p : Poly} {xs : List Int64} (h : p.depth ≤ xs.length) :
    xs.foldl (fun q x => q.evalFirst x) p = .coeff (p.value xs) := by
  induction xs generalizing p with
  | nil =>
    cases p with
    | coeff c => rw [List.foldl_nil, value_coeff]
    | sum ms => exact absurd h (layered_depth.not_sum ms)
  | cons x xs ih =>
    rw [List.foldl_cons, ih (depth_evalFirst_le h x), value_evalFirst h]

/-- With a number for each of its variables a polynomial has one value, in whatever form it is
    written: the sum over all paths, overflow included. It is found by evaluation at one variable
    after the other and by substitution of all numbers at once. -/
theorem successive_and_simultaneous_evaluation {p : Poly} {xs : List Int64}
    (h : p.depth ≤ xs.length) :
    xs.foldl (fun q x => q.evalFirst x) p = .coeff (p.value xs) ∧
      p.compose (xs.map coeff) = .coeff (p.value xs) :=
  ⟨foldl_evalFirst_eq_value h, compose_eq_value h⟩

/-- The tree `(3 · x₁² + 4 · x₁²) · x₀⁵ + 0 · x₀ + 2 · x₀⁵ + (7 · x₁⁰) · x₀⁰`, where the zero is an
    empty sum: no level of it is in canonical form. -/
def scattered : Poly :=
  .sum [⟨.sum [⟨.coeff 3, 2⟩, ⟨.coeff 4, 2⟩], 5⟩, ⟨.sum [], 1⟩, ⟨.coeff 2, 5⟩,
    ⟨.sum [⟨.coeff 7, 0⟩], 0⟩]

theorem successive_and_simultaneous_evaluation_scattered :
    scattered.depth ≤ [-2, 4294967296].length ∧ scattered.value [-2, 4294967296] = -57 ∧
      (scattered.evalFirst (-2)).evalFirst 4294967296 = .coeff (-57) ∧
      scattered.compose [.coeff (-2), .coeff 4294967296] = .coeff (-57) := by
  have hdepth : scattered.depth ≤ [(-2 : Int64), 4294967296].length := by decide
  have hvalue : scattered.value [-2, 4294967296] = -57 := by decide +kernel
  have hboth := successive_and_simultaneous_evaluation hdepth
  rw [hvalue] at hboth
  exact ⟨hdepth, hvalue, hboth⟩

end Poly

end PolyCalc
