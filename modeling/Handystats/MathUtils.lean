/-
`math_utils`: comparison up to a tolerance, quadratic equations and weighted
averages, in exact arithmetic.

The tolerances are a parameter of what is computed with them. `source` are the
source's own: four times the machine epsilon of `double`, and of the 80-bit
`long double`. With `exact`, all comparisons are those of the numbers. A root is
taken by a parameter `root`, the exact `std::sqrt`.
-/
import Mathlib.Tactic
import Mathlib.Algebra.Order.Field.Basic
import Handystats.Fault

namespace Handystats

namespace MathUtils

variable {K : Type} [Field K] [LinearOrder K]

/-- The literal `2` of a field, by name: it is the same term in every module. -/
instance atLeastTwo_two : Nat.AtLeastTwo 2 := ⟨le_rfl⟩

/-- The literal `4` of a field. -/
instance atLeastTwo_four : Nat.AtLeastTwo 4 := ⟨by decide⟩

/-- `std::numeric_limits<double>::epsilon() * 4`. -/
def doubleEps : K := (1 / 2 ^ 52) * 4

/-- `std::numeric_limits<long double>::epsilon() * 4`. -/
def longDoubleEps : K := (1 / 2 ^ 63) * 4

/-- `math_utils::cmp` with the tolerance `epsilon`. -/
def cmp (epsilon a b : K) : Int :=
  if a + epsilon < b then -1
  else if a - epsilon > b then 1
  else 0

end MathUtils

open MathUtils

/-- What `math_utils::cmp` tolerates on `double`, and on `long double`. -/
structure Tolerances (K : Type) where
  double : K
  longDouble : K

namespace Tolerances

variable {K : Type} [Field K]

/-- The source's own. -/
def source : Tolerances K := ⟨doubleEps, longDoubleEps⟩

/-- None. -/
def exact : Tolerances K := ⟨0, 0⟩

@[simp] theorem source_double : (source : Tolerances K).double = doubleEps := rfl

@[simp] theorem source_longDouble : (source : Tolerances K).longDouble = longDoubleEps := rfl

@[simp] theorem exact_double : (exact : Tolerances K).double = 0 := rfl

@[simp] theorem exact_longDouble : (exact : Tolerances K).longDouble = 0 := rfl

variable [LinearOrder K] (tol : Tolerances K)

/-- `math_utils::sqrt`. -/
def sqrt (root : K → K) (a : K) : Except Fault K :=
  if cmp tol.double a 0 < 0 then .error (.logicError "sqrt of negative number")
  else .ok (root a)

/-- `math_utils::solve_quadratic`: the roots of `a x^2 + b x + c = 0`. -/
def solveQuadratic (root : K → K) (a b c : K) : Except Fault (List K) :=
  if cmp tol.longDouble a 0 = 0 then
    if cmp tol.longDouble b 0 = 0 then .ok []
    else .ok [-c / b]
  else
    let d := b * b - 4 * a * c
    if cmp tol.longDouble d 0 < 0 then .ok []
    else if cmp tol.longDouble d 0 = 0 then .ok [-b / 2 / a]
    else do
      let d ← tol.sqrt root d
      .ok [(-d - b) / 2 / a, (d - b) / 2 / a]

/-- `math_utils::weighted_average`. -/
def weightedAverage (value1 weight1 value2 weight2 : K) : Except Fault K :=
  let totalWeight := weight1 + weight2
  if cmp tol.longDouble totalWeight 0 = 0 then
    .error (.logicError "weighted_average: zero total weight")
  else
    let weightedSum := value1 * weight1 + value2 * weight2
    .ok (weightedSum / totalWeight)

end Tolerances

namespace MathUtils

variable {K : Type} [Field K] [LinearOrder K]

/-- `math_utils::weighted_average` in the source. -/
def weightedAverage (value1 weight1 value2 weight2 : K) : Except Fault K :=
  Tolerances.source.weightedAverage value1 weight1 value2 weight2

/-! ## Tolerances -/

theorem cmp_neg {ε a b : K} : cmp ε a b < 0 ↔ a + ε < b := by
  unfold cmp
  split_ifs with h₁ h₂
  · simp [h₁]
  · simp [h₁]
  · simp [h₁]

theorem cmp_nonneg {ε a b : K} : 0 ≤ cmp ε a b ↔ b ≤ a + ε := by
  rw [← not_lt, cmp_neg, not_lt]

variable [IsStrictOrderedRing K]

theorem doubleEps_pos : (0 : K) < doubleEps := by unfold doubleEps; positivity

theorem longDoubleEps_pos : (0 : K) < longDoubleEps := by unfold longDoubleEps; positivity

theorem doubleEps_value : (doubleEps : K) = 1 / 2 ^ 50 := by unfold doubleEps; norm_num

theorem longDoubleEps_value : (longDoubleEps : K) = 1 / 2 ^ 61 := by unfold longDoubleEps; norm_num

/-- The `double` tolerance is 2048 times the `long double` one. -/
theorem doubleEps_eq : (doubleEps : K) = 2048 * longDoubleEps := by
  unfold doubleEps longDoubleEps; norm_num

theorem cmp_pos_of_nonneg {ε a b : K} (hε : 0 ≤ ε) : 0 < cmp ε a b ↔ b + ε < a := by
  unfold cmp
  split_ifs with h₁ h₂
  · constructor
    · intro h; omega
    · intro h; linarith
  · constructor
    · intro _; linarith
    · intro _; omega
  · constructor
    · intro h; omega
    · intro h; exact absurd (by linarith) h₂

theorem cmp_pos {ε a b : K} (hε : 0 < ε) : 0 < cmp ε a b ↔ b + ε < a := cmp_pos_of_nonneg hε.le

theorem cmp_nonpos {ε a b : K} (hε : 0 < ε) : cmp ε a b ≤ 0 ↔ a ≤ b + ε := by
  rw [← not_lt, cmp_pos hε, not_lt]

theorem cmp_eq_zero {ε a b : K} (hε : 0 < ε) : cmp ε a b = 0 ↔ b ≤ a + ε ∧ a ≤ b + ε := by
  rw [← cmp_nonneg, ← cmp_nonpos hε]; omega

/-! ## Weighted averages -/

theorem weightedAverage_of_pos {v₁ w₁ v₂ w₂ : K} (h : longDoubleEps < w₁ + w₂) :
    weightedAverage v₁ w₁ v₂ w₂ = .ok ((v₁ * w₁ + v₂ * w₂) / (w₁ + w₂)) := by
  refine if_neg ?_
  rw [Tolerances.source_longDouble, cmp_eq_zero longDoubleEps_pos]
  intro h
  obtain ⟨-, h'⟩ := h
  linarith

theorem weighted_le {v₁ w₁ v₂ w₂ : K} (h₁ : 0 ≤ w₁) (h : 0 < w₁ + w₂) (hv : v₁ ≤ v₂) :
    (v₁ * w₁ + v₂ * w₂) / (w₁ + w₂) ≤ v₂ := by
  rw [div_le_iff₀ h]; nlinarith

theorem le_weighted {v₁ w₁ v₂ w₂ : K} (h₂ : 0 ≤ w₂) (h : 0 < w₁ + w₂) (hv : v₁ ≤ v₂) :
    v₁ ≤ (v₁ * w₁ + v₂ * w₂) / (w₁ + w₂) := by
  rw [le_div_iff₀ h]; nlinarith

end MathUtils

end Handystats
