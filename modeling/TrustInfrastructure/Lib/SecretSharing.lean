import Mathlib.LinearAlgebra.Lagrange
import Mathlib.Algebra.Module.ZMod
import Mathlib.Data.ZMod.Basic

/-!
# Sharing a secret among points of a polynomial

A dealer's secret is the constant term of a polynomial, and a share is its value at the holder's point. Values are
computed by Horner's rule, over the scalars or, with the coefficients multiplied into a group, over the group
(`horner`); the two agree (`horner_map_smul`), which is how a share is checked against commitments. As many distinct
points as there are coefficients determine the polynomial, so its constant term is the sum of the values weighted by
the Lagrange coefficients at zero (`sum_weightAtZero_smul`).

The last part reads a small multiple of the generator back from the group by baby steps and giant steps. Whatever the
step, the first match is the least number with that multiple.
-/

namespace TrustInfrastructure.Lib

/-! ### Horner's rule -/

section Horner

variable {F M : Type} [Field F] [AddCommGroup M] [Module F M]

/-- The value at `x` of the polynomial with these coefficients, constant term first. -/
def horner (x : F) (coeffs : List M) : M := coeffs.reverse.foldl (fun acc c => x • acc + c) 0

theorem horner_nil (x : F) : horner x ([] : List M) = 0 := rfl

theorem horner_cons (x : F) (c : M) (coeffs : List M) : horner x (c :: coeffs) = x • horner x coeffs + c := by
  rw [horner, List.reverse_cons, List.foldl_append]
  rfl

theorem horner_zero (coeffs : List M) : horner (0 : F) coeffs = coeffs.headD 0 := by
  cases coeffs with
  | nil => rfl
  | cons => rw [horner_cons, zero_smul, zero_add, List.headD_cons]

/-- Horner's rule in the exponents is Horner's rule on the scalars. -/
theorem horner_map_smul (x : F) (g : M) (coeffs : List F) :
    horner x (coeffs.map fun a => a • g) = horner x coeffs • g := by
  induction coeffs with
  | nil => rw [List.map_nil, horner_nil, horner_nil, zero_smul]
  | cons _ _ ih => rw [List.map_cons, horner_cons, horner_cons, ih, add_smul, smul_assoc]

noncomputable def polyOf : List F → Polynomial F
  | [] => 0
  | a :: coeffs => Polynomial.X * polyOf coeffs + Polynomial.C a

theorem eval_polyOf (x : F) (coeffs : List F) : (polyOf coeffs).eval x = horner x coeffs := by
  induction coeffs with
  | nil => rw [polyOf, Polynomial.eval_zero, horner_nil]
  | cons _ _ ih =>
    rw [polyOf, horner_cons, Polynomial.eval_add, Polynomial.eval_mul, Polynomial.eval_X, Polynomial.eval_C, ih,
      smul_eq_mul]

theorem degree_polyOf_lt (coeffs : List F) : (polyOf coeffs).degree < coeffs.length := by
  induction coeffs with
  | nil => simp [polyOf]
  | cons _ coeffs ih =>
    rw [polyOf]
    refine (Polynomial.degree_add_le _ _).trans_lt (max_lt ?_ ?_)
    · rw [Polynomial.X_mul, Polynomial.degree_mul_X]
      rcases eq_or_ne (polyOf coeffs).degree ⊥ with hbot | hbot
      · rw [hbot]
        exact WithBot.bot_lt_coe _
      · rw [List.length_cons, Nat.cast_add, Nat.cast_one]
        exact WithBot.add_lt_add_right (by simp) ih
    · refine Polynomial.degree_C_le.trans_lt ?_
      rw [List.length_cons]
      exact_mod_cast Nat.succ_pos _

end Horner

/-! ### Interpolation at zero -/

section Interpolation

variable {F M ι : Type} [Field F] [AddCommGroup M] [Module F M] [DecidableEq ι]

/-- The Lagrange coefficient at zero of the point of `j` among the points of `set`. -/
def weightAtZero (point : ι → F) (j : ι) (set : List ι) : F :=
  let products := set.foldl (fun acc k =>
    if k ≠ j then (acc.1 * point k, acc.2 * (point k - point j)) else acc) ((1, 1) : F × F)
  products.1 * products.2⁻¹

theorem weightAtZero_eq_prod (point : ι → F) (j : ι) (set : List ι) :
    weightAtZero point j set = ((set.filter (· ≠ j)).map fun k => point k * (point k - point j)⁻¹).prod := by
  have hfold : ∀ (acc : F × F), (set.foldl (fun acc k =>
      if k ≠ j then (acc.1 * point k, acc.2 * (point k - point j)) else acc) acc) =
      (acc.1 * ((set.filter (· ≠ j)).map point).prod,
        acc.2 * ((set.filter (· ≠ j)).map fun k => point k - point j).prod) := by
    induction set with
    | nil => intro acc; simp
    | cons k _ ih =>
      intro acc
      rw [List.foldl_cons, ih]
      by_cases hk : k = j
      · simp [hk]
      · simp [hk, mul_assoc]
  rw [weightAtZero, hfold, one_mul, one_mul, List.prod_inv, List.map_map, List.prod_map_mul]
  rfl

theorem weightAtZero_eq_eval_basis (point : ι → F) (j : ι) {set : List ι} (hnodup : set.Nodup) :
    weightAtZero point j set = (Lagrange.basis set.toFinset point j).eval 0 := by
  have herase : (set.filter (· ≠ j)).toFinset = set.toFinset.erase j := by
    ext k
    simp [and_comm]
  rw [weightAtZero_eq_prod, ← List.prod_toFinset _ (hnodup.filter _), herase, Lagrange.basis, Polynomial.eval_prod]
  refine Finset.prod_congr rfl fun k _ => ?_
  rw [Lagrange.basisDivisor, Polynomial.eval_mul, Polynomial.eval_C, Polynomial.eval_sub, Polynomial.eval_X,
    Polynomial.eval_C, zero_sub, ← neg_sub (point k) (point j), inv_neg, neg_mul_neg, mul_comm]

section
variable {point : ι → F} {set : List ι} (hnodup : set.Nodup) (hinj : Set.InjOn point {k | k ∈ set})
  {f : Polynomial F} (hdeg : f.degree < set.length)
include hnodup hinj hdeg

/-- As many distinct points as coefficients give back the constant term. -/
theorem sum_weightAtZero : (set.map fun j => weightAtZero point j set * f.eval (point j)).sum = f.eval 0 := by
  have hcard : f.degree < (set.toFinset.card : WithBot ℕ) := by rwa [List.toFinset_card_of_nodup hnodup]
  have hinj' : Set.InjOn point set.toFinset := by
    intro a ha b hb h
    exact hinj (List.mem_toFinset.mp ha) (List.mem_toFinset.mp hb) h
  have hinterpolate := congrArg (Polynomial.eval 0) (Lagrange.eq_interpolate hinj' hcard)
  rw [hinterpolate, Lagrange.interpolate_apply, Polynomial.eval_finsetSum, List.sum_toFinset _ hnodup]
  refine congrArg List.sum (List.map_congr_left fun j _ => ?_)
  rw [Polynomial.eval_mul, Polynomial.eval_C, weightAtZero_eq_eval_basis point j hnodup, mul_comm]

/-- The same in the group: values of the polynomial multiplied into an element recombine to its constant term
multiplied into that element. -/
theorem sum_weightAtZero_smul (a : M) :
    (set.map fun j => weightAtZero point j set • f.eval (point j) • a).sum = f.eval 0 • a := by
  rw [← sum_weightAtZero hnodup hinj hdeg, List.sum_smul, List.map_map]
  exact congrArg List.sum (List.map_congr_left fun j _ => smul_smul _ _ _)

end

end Interpolation

/-! ### Small multiples -/

section SmallMultiples

variable {P : Type} [AddCommGroup P] [DecidableEq P]

/-- The baby steps: `count` pairs of a point and its number, from the number `j` and the point `p` on. -/
def babySteps (g : P) : Nat → Nat → P → List (P × Nat)
  | 0, _, _ => []
  | count + 1, j, p => (p, j) :: babySteps g count (j + 1) (p + g)

/-- The giant steps: the first match of the target, brought down by `step` multiples at a time, among the baby steps,
whose number is within `max`. -/
def giantSteps (baby : List (P × Nat)) (giant : P) (step max : Nat) : Nat → Nat → P → Option Nat
  | 0, _, _ => none
  | fuel + 1, i, gamma =>
    if i * step ≤ max then
      match baby.lookup gamma with
      | some j =>
        if i * step + j ≤ max then some (i * step + j) else giantSteps baby giant step max fuel (i + 1) (gamma - giant)
      | none => giantSteps baby giant step max fuel (i + 1) (gamma - giant)
    else none

theorem lookup_babySteps (g : P) (count j : Nat) (gamma : P) :
    (∀ i, (babySteps g count j (j • g)).lookup gamma = some i → j ≤ i ∧ i < j + count ∧ i • g = gamma) ∧
    (∀ i, j ≤ i → i < j + count → i • g = gamma → (∀ k, k • g = gamma → i ≤ k) →
      (babySteps g count j (j • g)).lookup gamma = some i) := by
  induction count generalizing j with
  | zero => exact ⟨fun i h => (nomatch h), fun i h₁ h₂ => absurd h₂ (by omega)⟩
  | succ _ ih =>
    have hnext : j • g + g = (j + 1) • g := (succ_nsmul g j).symm
    rw [babySteps, hnext, List.lookup_cons]
    by_cases hhere : gamma = j • g
    · rw [beq_iff_eq.mpr hhere]
      refine ⟨fun i h => ?_, fun i hle _ hi hleast => ?_⟩
      · cases h
        exact ⟨Nat.le_refl j, by omega, hhere.symm⟩
      · rw [Nat.le_antisymm (hleast j hhere.symm) hle]
    · rw [beq_eq_false_iff_ne.mpr hhere]
      obtain ⟨hsound, hfirst⟩ := ih (j + 1)
      refine ⟨fun i h => ?_, fun i hle hlt hi hleast => ?_⟩
      · obtain ⟨h₁, h₂, h₃⟩ := hsound i h
        exact ⟨by omega, by omega, h₃⟩
      · have hne : i ≠ j := by
          rintro rfl
          exact hhere hi.symm
        exact hfirst i (by omega) (by omega) hi hleast

/-- The search finds the least number whose multiple of `g` is the target, for every step: before the giant step that
reaches it nothing matches, and there the first match is it. -/
theorem giantSteps_eq_some {g : P} {step max m fuel : Nat} (hmax : m ≤ max)
    (hleast : ∀ k, k • g = m • g → m ≤ k) (i : Nat) (hi : i * step ≤ m) (hfuel : m < (i + fuel) * step) :
    giantSteps (babySteps g (step + 1) 0 0) (step • g) step max fuel i (m • g - (i * step) • g) = some m := by
  induction fuel generalizing i with
  | zero => exact absurd hfuel (by simpa using hi)
  | succ _ ih =>
    have hlookup := lookup_babySteps g (step + 1) 0 (m • g - (i * step) • g)
    rw [zero_nsmul] at hlookup
    obtain ⟨hsound, hfirst⟩ := hlookup
    have hreach : ∀ j, j • g = m • g - (i * step) • g → m ≤ i * step + j := by
      intro j hj
      refine hleast _ ?_
      rw [add_nsmul, hj]
      abel
    rw [giantSteps, if_pos (hi.trans hmax)]
    by_cases hlast : m ≤ (i + 1) * step
    · have hj : (m - i * step) • g = m • g - (i * step) • g := by
        rw [eq_sub_iff_add_eq, ← add_nsmul, Nat.sub_add_cancel hi]
      rw [Nat.add_mul, Nat.one_mul] at hlast
      rw [hfirst (m - i * step) (by omega) (by omega) hj fun k hk => by have := hreach k hk; omega]
      dsimp only
      rw [if_pos (by omega)]
      exact congrArg some (by omega)
    · have hnone : (babySteps g (step + 1) 0 0).lookup (m • g - (i * step) • g) = none := by
        rcases hfound : (babySteps g (step + 1) 0 0).lookup (m • g - (i * step) • g) with _ | j
        · rfl
        · obtain ⟨_, hlt, hj⟩ := hsound j hfound
          have := hreach j hj
          rw [Nat.add_mul, Nat.one_mul] at hlast
          omega
      rw [hnone]
      have hgamma : m • g - (i * step) • g - step • g = m • g - ((i + 1) * step) • g := by
        rw [Nat.add_mul, Nat.one_mul, add_nsmul, sub_sub]
      rw [hgamma]
      refine ih (i + 1) (by omega) ?_
      rwa [Nat.add_right_comm, Nat.add_assoc]

end SmallMultiples

end TrustInfrastructure.Lib
