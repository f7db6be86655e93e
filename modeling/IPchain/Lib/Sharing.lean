import Mathlib.LinearAlgebra.Lagrange

/-! Polynomials with coefficients in a module: their values, their sums, and the interpolation
of the constant coefficient from values at enough points. -/

namespace IPchain.Lib

open Polynomial

variable {F G : Type} [Field F] [AddCommGroup G] [Module F G]

/-- The value at `x` of the polynomial with the coefficients `ps`, the constant one first. -/
def valueAt (x : F) : List G → G
  | [] => 0
  | p :: ps => p + x • valueAt x ps

@[simp] theorem valueAt_nil (x : F) : valueAt x ([] : List G) = 0 := rfl

@[simp] theorem valueAt_cons (x : F) (p : G) (ps : List G) :
    valueAt x (p :: ps) = p + x • valueAt x ps := rfl

theorem valueAt_map_smul (x : F) (cs : List F) (g : G) :
    valueAt x (cs.map fun c => c • g) = valueAt x cs • g := by
  induction cs with
  | nil => simp
  | cons c cs ih => rw [List.map_cons, valueAt_cons, valueAt_cons, ih, add_smul, smul_smul, smul_eq_mul]

theorem valueAt_zero (ps : List G) : valueAt (0 : F) ps = ps.headD 0 := by
  cases ps with
  | nil => rfl
  | cons p ps => simp

theorem valueAt_range (x : F) (n : Nat) (c : Nat → G) :
    valueAt x ((List.range n).map c) = ∑ i ∈ Finset.range n, x ^ i • c i := by
  induction n generalizing c with
  | zero => rfl
  | succ n ih =>
      rw [List.range_succ_eq_map, List.map_cons, List.map_map, valueAt_cons, ih, Finset.sum_range_succ',
        Finset.smul_sum, pow_zero, one_smul, add_comm]
      congr 1
      apply Finset.sum_congr rfl
      intro i _
      rw [smul_smul, pow_succ']
      rfl

theorem valueAt_coeff (x : F) {f : F[X]} {n : Nat} (low : f.degree < n) (positive : 0 < n) :
    valueAt x ((List.range n).map f.coeff) = f.eval x := by
  have degree : f.natDegree < n := by
    by_cases zero : f = 0
    · rwa [zero, natDegree_zero]
    · exact (natDegree_lt_iff_degree_lt zero).mpr low
  rw [valueAt_range, eval_eq_sum_range' degree]
  apply Finset.sum_congr rfl
  intro i _
  rw [smul_eq_mul, mul_comm]

theorem valueAt_zipWith (x : F) {ps qs : List G} (lengths : ps.length = qs.length) :
    valueAt x (List.zipWith (· + ·) ps qs) = valueAt x ps + valueAt x qs := by
  induction ps generalizing qs with
  | nil =>
      rw [List.eq_nil_of_length_eq_zero lengths.symm]
      simp
  | cons p ps ih =>
      cases qs with
      | nil => cases lengths
      | cons q qs =>
          rw [List.zipWith_cons_cons, valueAt_cons, valueAt_cons, valueAt_cons,
            ih (Nat.succ.inj lengths), smul_add]
          abel

variable [DecidableEq F]

noncomputable def weight (xs : List F) (x : F) : F := (Lagrange.basis xs.toFinset id x).eval 0

noncomputable def interpolated (xs : List F) (hs : List G) : G :=
  ((xs.zip hs).map fun pair => weight xs pair.1 • pair.2).sum

theorem interpolated_map_smul (xs ys : List F) (g : G) :
    interpolated xs (ys.map fun y => y • g) = interpolated xs ys • g := by
  rw [interpolated, interpolated, List.zip_map_right, List.map_map]
  generalize xs.zip ys = pairs
  induction pairs with
  | nil => simp
  | cons pair pairs ih =>
      rw [List.map_cons, List.sum_cons, ih, List.map_cons, List.sum_cons, add_smul, smul_eq_mul,
        mul_smul]
      rfl

theorem sum_weight_pow {xs : List F} (distinct : xs.Nodup) {j : Nat} (few : j < xs.length) :
    (xs.map fun x => weight xs x * x ^ j).sum = 0 ^ j := by
  have card : (X ^ j : F[X]).degree < (xs.toFinset.card : WithBot Nat) := by
    rw [degree_X_pow, List.toFinset_card_of_nodup distinct]
    exact_mod_cast few
  have same := Lagrange.eq_interpolate (Set.injOn_id _) card
  have values := congrArg (eval 0) same
  rw [Lagrange.interpolate_apply, eval_finsetSum, eval_pow, eval_X] at values
  rw [values, List.sum_toFinset _ distinct]
  congr 1
  apply List.map_congr_left
  intro x _
  rw [eval_mul, eval_C, eval_pow, eval_X, mul_comm]
  rfl

theorem sum_weight_valueAt {xs : List F} (distinct : xs.Nodup) (ps : List G) (j : Nat)
    (few : j + ps.length ≤ xs.length) :
    (xs.map fun x => (weight xs x * x ^ j) • valueAt x ps).sum =
      (0 : F) ^ j • valueAt (0 : F) ps := by
  induction ps generalizing j with
  | nil => simp
  | cons p ps ih =>
      rw [List.length_cons] at few
      have next := ih (j + 1) (by omega)
      have here := sum_weight_pow distinct (show j < xs.length by omega)
      have split : (xs.map fun x => (weight xs x * x ^ j) • valueAt x (p :: ps)) =
          xs.map fun x => (weight xs x * x ^ j) • p + (weight xs x * x ^ (j + 1)) • valueAt x ps := by
        apply List.map_congr_left
        intro x _
        rw [valueAt_cons, smul_add, smul_smul, mul_assoc, pow_succ]
      have factor : (xs.map fun x => (weight xs x * x ^ j) • p) =
          (xs.map fun x => weight xs x * x ^ j).map fun c => c • p := by
        rw [List.map_map]
        rfl
      rw [split, List.sum_map_add, next, factor, ← List.sum_smul, here, valueAt_cons, pow_succ,
        mul_zero, zero_smul, add_zero, add_zero]

theorem interpolated_values {xs : List F} (distinct : xs.Nodup) {ps : List G}
    (few : ps.length ≤ xs.length) :
    interpolated xs (xs.map fun x => valueAt x ps) = ps.headD 0 := by
  have whole := sum_weight_valueAt distinct ps 0 (by omega)
  rw [pow_zero, one_smul, valueAt_zero] at whole
  rw [← whole, interpolated, List.zip_map_right, List.map_map]
  congr 1
  apply List.ext_getElem
  · simp
  · intro i _ _
    simp

end IPchain.Lib
