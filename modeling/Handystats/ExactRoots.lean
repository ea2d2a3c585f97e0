/-
`find_z` without tolerances.

The quadratic it solves says that the mass up to `z`, under a ramp from the left
count to the right one, is what is left of the required count. Where that is less
than the segment's volume, `find_z` finds the place (`findZ_exact`): of two
roots the first one is outside the interval.
-/
import Handystats.Library.Ramp
import Handystats.Quantile

namespace Handystats

open Runs MathUtils Ramp

variable {K : Type} [Field K] [LinearOrder K]

/-! ## Exact comparison -/

theorem cmp_exact_neg {a b : K} : MathUtils.cmp 0 a b < 0 ↔ a < b := by
  rw [cmp_neg, add_zero]

theorem cmp_exact_pos {a b : K} : 0 < MathUtils.cmp 0 a b ↔ b < a := by
  unfold MathUtils.cmp
  split_ifs with h₁ h₂
  · simp only [add_zero] at h₁
    simp [h₁.le]
  · simp only [sub_zero] at h₂
    simp [h₂]
  · simp only [sub_zero] at h₂
    simp [h₂]

theorem cmp_exact_nonpos {a b : K} : MathUtils.cmp 0 a b ≤ 0 ↔ a ≤ b := by
  rw [← not_lt, cmp_exact_pos, not_lt]

theorem cmp_exact_nonneg {a b : K} : 0 ≤ MathUtils.cmp 0 a b ↔ b ≤ a := by
  rw [cmp_nonneg, add_zero]

theorem cmp_exact_eq {a b : K} : MathUtils.cmp 0 a b = 0 ↔ a = b := by
  rw [le_antisymm_iff, cmp_exact_nonpos, cmp_exact_nonneg, ← le_antisymm_iff]

/-! ## `math_utils` -/

theorem weightedAverage_exact {v₁ w₁ v₂ w₂ : K} (h : w₁ + w₂ ≠ 0) :
    Tolerances.exact.weightedAverage v₁ w₁ v₂ w₂ = .ok ((v₁ * w₁ + v₂ * w₂) / (w₁ + w₂)) :=
  if_neg (cmp_exact_eq.not.2 h)

/-- `solve_quadratic` by the discriminant. -/
theorem solveQuadratic_exact (root : K → K) (a b c : K) :
    Tolerances.exact.solveQuadratic root a b c =
      if a = 0 then if b = 0 then .ok [] else .ok [-c / b]
      else if b * b - 4 * a * c < 0 then .ok []
      else if b * b - 4 * a * c = 0 then .ok [-b / 2 / a]
      else .ok [(-root (b * b - 4 * a * c) - b) / 2 / a, (root (b * b - 4 * a * c) - b) / 2 / a] := by
  simp only [Tolerances.solveQuadratic, Tolerances.sqrt, Tolerances.exact_longDouble,
    Tolerances.exact_double, cmp_exact_eq, cmp_exact_neg]
  split_ifs <;> rfl

/-- `find_z` takes the first root in the interval. -/
theorem findZ_of_roots {root : K → K} {a b c z : K} (before : List K) {after : List K}
    (hsolve : Tolerances.exact.solveQuadratic root a b c = .ok (before ++ z :: after))
    (hz : 0 ≤ z ∧ z ≤ 1) (hbefore : ∀ w ∈ before, ¬ (0 ≤ w ∧ w ≤ 1)) :
    Tolerances.exact.findZ root a b c = .ok z := by
  have hunit : ∀ w : K, (0 ≤ MathUtils.cmp Tolerances.exact.double w 0 &&
      MathUtils.cmp Tolerances.exact.double w 1 ≤ 0 : Bool) = true ↔ 0 ≤ w ∧ w ≤ 1 := by
    intro w
    rw [Bool.and_eq_true, decide_eq_true_eq, decide_eq_true_eq]
    exact and_congr cmp_exact_nonneg cmp_exact_nonpos
  have hfind : ((before ++ z :: after).find? fun w => 0 ≤ MathUtils.cmp Tolerances.exact.double w 0 &&
      MathUtils.cmp Tolerances.exact.double w 1 ≤ 0) = some z := by
    refine List.find?_eq_some_iff_append.2 ⟨(hunit z).2 hz, before, after, rfl, fun w hw => ?_⟩
    rw [Bool.not_eq_true', ← Bool.not_eq_true, hunit]
    exact hbefore w hw
  refine bind_eq_ok.2 ⟨_, hsolve, ?_⟩
  simp only [hfind]

/-! ## `find_z` -/

/-- `find_z` answers with a place between the counts `l` and `r` up to which the
mass is `x`. -/
def Finds (root : K → K) (l r x : K) : Prop :=
  ∃ z, Tolerances.exact.findZ root (r - l) (2 * l) (-2 * x) = .ok z ∧ 0 ≤ z ∧ z ≤ 1 ∧ mass l r z = x

section Roots

variable [IsStrictOrderedRing K] {root : K → K} (hroot : ∀ d, 0 ≤ d → 0 ≤ root d ∧ root d * root d = d)
variable {l r x : K} (hl : 0 ≤ l) (hr : 0 ≤ r) (hx : 0 ≤ x) (hlt : x < (l + r) / 2)

include hl hx hlt in
/-- Equal counts: the equation is linear. -/
theorem findZ_flat (hflat : r - l = 0) : Finds root l r x := by
  obtain rfl : r = l := sub_eq_zero.1 hflat
  have hpos : 0 < r := by linarith
  have hz : -(-2 * x) / (2 * r) = x / r := by field_simp
  have hb : ¬ 2 * r = 0 := by linarith
  have hunit : 0 ≤ x / r ∧ x / r ≤ 1 := ⟨div_nonneg hx hl, by rw [div_le_one hpos]; linarith⟩
  have hsolve : Tolerances.exact.solveQuadratic root (r - r) (2 * r) (-2 * x) = .ok [x / r] := by
    rw [solveQuadratic_exact, if_pos hflat, if_neg hb, hz]
  have hfind := findZ_of_roots [] hsolve hunit (by simp)
  refine ⟨x / r, hfind, hunit.1, hunit.2, ?_⟩
  unfold mass
  field_simp
  ring

include hroot hl hr hx hlt in
/-- Different counts: of the two roots, the one with the square root added. -/
theorem findZ_ramp (hne : r - l ≠ 0) : Finds root l r x := by
  obtain ⟨d, hd⟩ : ∃ d, d = 2 * l * (2 * l) - 4 * (r - l) * (-2 * x) := ⟨_, rfl⟩
  have hd0 : 0 ≤ d := by
    rcases le_or_gt l r with h | h
    · nlinarith
    · nlinarith [mul_nonneg hr hr]
  obtain ⟨hs, hsq⟩ := hroot d hd0
  obtain ⟨hunit, hmass⟩ := upper_root hl hr hx hlt.le hne hs (hsq.trans hd)
  refine ⟨_, ?_, hunit.1, hunit.2, hmass⟩
  rcases hd0.eq_or_lt with hzero | hpos
  · have hs0 : root d = 0 := by
      rw [← hzero] at hsq ⊢
      exact mul_self_eq_zero.1 hsq
    have hsolve : Tolerances.exact.solveQuadratic root (r - l) (2 * l) (-2 * x) =
        .ok [-(2 * l) / 2 / (r - l)] := by
      rw [solveQuadratic_exact, if_neg hne, ← hd, if_neg (not_lt.2 hd0), if_pos hzero.symm]
    rw [hs0, zero_sub] at hunit ⊢
    exact findZ_of_roots [] hsolve hunit (by simp)
  · have hspos : 0 < root d := by
      refine lt_of_le_of_ne hs fun h => ?_
      rw [← h, zero_mul] at hsq
      exact hpos.ne hsq
    have hsolve : Tolerances.exact.solveQuadratic root (r - l) (2 * l) (-2 * x) =
        .ok [(-root d - 2 * l) / 2 / (r - l), (root d - 2 * l) / 2 / (r - l)] := by
      rw [solveQuadratic_exact, if_neg hne, ← hd, if_neg (not_lt.2 hd0), if_neg hpos.ne']
    refine findZ_of_roots [_] hsolve hunit fun w hw => ?_
    obtain rfl := List.mem_singleton.1 hw
    exact lower_root_outside hl hr hne hspos

include hroot hl hr hx hlt in
/-- **`find_z` finds the place** up to which the segment holds what is left. -/
theorem findZ_exact : Finds root l r x := by
  by_cases hne : r - l = 0
  · exact findZ_flat hl hx hlt hne
  · exact findZ_ramp hroot hl hr hx hlt hne

end Roots

end Handystats
