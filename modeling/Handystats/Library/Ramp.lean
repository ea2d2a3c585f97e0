/-
The mass under a ramp: a density on the unit interval that goes linearly from
`l` to `r`.

The mass up to `z` grows strictly with `z`, so there is one place up to which it
is a given part of the whole. That place is a root of a quadratic, and always
the root with the square root added, whichever way the ramp goes; the other root
is outside the interval.
-/
import Mathlib.Tactic
import Mathlib.Algebra.Order.Field.Basic

namespace Handystats.Ramp

variable {K : Type} [Field K]

/-- The mass up to `z`. -/
def mass (l r z : K) : K := l * z + (r - l) * z ^ 2 / 2

@[simp] theorem mass_zero (l r : K) : mass l r 0 = 0 := by simp [mass]

variable [LinearOrder K] [IsStrictOrderedRing K] {l r x s z w : K}

@[simp] theorem mass_one (l r : K) : mass l r 1 = (l + r) / 2 := by
  unfold mass
  ring

section

variable (hl : 0 ≤ l) (hr : 0 ≤ r)

include hl hr in
/-- The mass grows, and strictly so under a ramp that has any. -/
theorem mass_strictMonoOn (h : 0 < l + r) : StrictMonoOn (mass l r) (Set.Icc 0 1) := by
  intro z hz w hw hzw
  have hmean : 0 < (z + w) / 2 := by linarith [hz.1]
  have hmean' : (z + w) / 2 < 1 := by linarith [hw.2]
  -- The mean density between `z` and `w`.
  have hdensity : 0 < l * (1 - (z + w) / 2) + r * ((z + w) / 2) := by
    rcases hl.eq_or_lt with rfl | hl
    · have hr : 0 < r := by linarith
      rw [zero_mul, zero_add]
      exact mul_pos hr hmean
    · exact add_pos_of_pos_of_nonneg (mul_pos hl (by linarith)) (mul_nonneg hr hmean.le)
  have hgrowth : mass l r w - mass l r z = (w - z) * (l * (1 - (z + w) / 2) + r * ((z + w) / 2)) := by
    unfold mass
    ring
  have := mul_pos (sub_pos.2 hzw) hdensity
  linarith

include hl hr in
/-- Up to any place, at most the whole. -/
theorem mass_le (hz : 0 ≤ z) (hz' : z ≤ 1) : mass l r z ≤ (l + r) / 2 := by
  have hrest : (l + r) / 2 - mass l r z = (1 - z) * (l * (1 - z) + r * (1 + z)) / 2 := by
    unfold mass
    ring
  have hnonneg : 0 ≤ (1 - z) * (l * (1 - z) + r * (1 + z)) / 2 := by
    have hone : 0 ≤ 1 - z := by linarith
    positivity
  linarith

/-! ## The roots -/

include hl hr in
/-- **The place of a mass.** With `s` the square root of the discriminant. -/
theorem upper_root (hx : 0 ≤ x) (hle : x ≤ (l + r) / 2) (hne : r - l ≠ 0) (hs : 0 ≤ s)
    (hd : s * s = 2 * l * (2 * l) - 4 * (r - l) * (-2 * x)) :
    (0 ≤ (s - 2 * l) / 2 / (r - l) ∧ (s - 2 * l) / 2 / (r - l) ≤ 1) ∧
      mass l r ((s - 2 * l) / 2 / (r - l)) = x := by
  have hl2 : 0 ≤ 2 * l := by linarith
  have hr2 : 0 ≤ 2 * r := by linarith
  refine ⟨?_, ?_⟩
  · rcases lt_or_gt_of_ne hne with hneg | hpos
    · -- Downwards: the square root is between `2 r` and `2 l`.
      have hupper : s ≤ 2 * l := (mul_self_le_mul_self_iff hs hl2).2 (by nlinarith)
      have hlower : 2 * r ≤ s := (mul_self_le_mul_self_iff hr2 hs).2 (by nlinarith)
      rw [div_le_one_of_neg hneg]
      exact ⟨div_nonneg_of_nonpos (by linarith) hneg.le, by linarith⟩
    · have hlower : 2 * l ≤ s := (mul_self_le_mul_self_iff hl2 hs).2 (by nlinarith)
      have hupper : s ≤ 2 * r := (mul_self_le_mul_self_iff hs hr2).2 (by nlinarith)
      rw [div_le_one hpos]
      exact ⟨div_nonneg (by linarith) hpos.le, by linarith⟩
  · unfold mass
    field_simp
    linear_combination hd

include hl hr in
/-- The other root is below 0 or above 1. -/
theorem lower_root_outside (hne : r - l ≠ 0) (hs : 0 < s) :
    ¬ (0 ≤ (-s - 2 * l) / 2 / (r - l) ∧ (-s - 2 * l) / 2 / (r - l) ≤ 1) := by
  intro h
  rcases lt_or_gt_of_ne hne with hneg | hpos
  · rw [div_le_one_of_neg hneg] at h
    linarith [h.2]
  · have hbelow := div_neg_of_neg_of_pos (show (-s - 2 * l) / 2 < 0 by linarith) hpos
    exact absurd hbelow (not_lt.2 h.1)

end

end Handystats.Ramp
