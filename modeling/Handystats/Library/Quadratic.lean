/-
Where the roots of a quadratic lie.

A polynomial with two different roots has one of them in an interval exactly
when it changes its sign there, or when its vertex is in the interval and the
interval's lower end is outside the roots (`exists_root_iff`). No root need be
computed to decide that.
-/
import Mathlib.Tactic
import Mathlib.Algebra.Order.Field.Basic

namespace Handystats.Quadratic

variable {K : Type} [Field K] [LinearOrder K] [IsStrictOrderedRing K]

/-- The quadratic polynomial with these coefficients. -/
def quadratic (a b c x : K) : K := a * x ^ 2 + b * x + c

/-- For a product of two linear factors, with the roots `u < w`. -/
theorem exists_factor_root_iff {u w lo hi : K} (huw : u < w) (hlohi : lo ≤ hi) :
    ((lo ≤ u ∧ u ≤ hi) ∨ (lo ≤ w ∧ w ≤ hi)) ↔
      ((lo - u) * (lo - w)) * ((hi - u) * (hi - w)) ≤ 0 ∨
        (lo ≤ (u + w) / 2 ∧ (u + w) / 2 ≤ hi) ∧ 0 ≤ (lo - u) * (lo - w) := by
  constructor
  · have hlower : lo ≤ u ∧ u ≤ hi → ((lo - u) * (lo - w)) * ((hi - u) * (hi - w)) ≤ 0 ∨
        (lo ≤ (u + w) / 2 ∧ (u + w) / 2 ≤ hi) ∧ 0 ≤ (lo - u) * (lo - w) := by
      intro h
      obtain ⟨h₁, h₂⟩ := h
      have hlo : 0 ≤ (lo - u) * (lo - w) :=
        mul_nonneg_of_nonpos_of_nonpos (by linarith) (by linarith)
      rcases le_or_gt hi w with h | h
      · refine .inl (mul_nonpos_of_nonneg_of_nonpos hlo ?_)
        exact mul_nonpos_of_nonneg_of_nonpos (by linarith) (by linarith)
      · exact .inr ⟨⟨by linarith, by linarith⟩, hlo⟩
    intro h
    rcases h with h | ⟨h₁, h₂⟩
    · exact hlower h
    · rcases le_or_gt lo u with h | h
      · exact hlower ⟨h, by linarith⟩
      · -- Between the roots at `lo`, past them at `hi`.
        refine .inl (mul_nonpos_of_nonpos_of_nonneg ?_ ?_)
        · exact mul_nonpos_of_nonneg_of_nonpos (by linarith) (by linarith)
        · exact mul_nonneg (by linarith) (by linarith)
  · intro h
    by_contra hout
    simp only [not_or, not_and_or, not_le] at hout
    obtain ⟨hu | hu, hw⟩ := hout
    · rcases hw with hw | hw
      · have hlo : 0 < (lo - u) * (lo - w) := mul_pos (by linarith) (by linarith)
        have hhi : 0 < (hi - u) * (hi - w) := mul_pos (by linarith) (by linarith)
        rcases h with h | ⟨⟨h, -⟩, -⟩
        · exact absurd (mul_pos hlo hhi) (not_lt.2 h)
        · linarith
      · have hlo : (lo - u) * (lo - w) < 0 := mul_neg_of_pos_of_neg (by linarith) (by linarith)
        have hhi : (hi - u) * (hi - w) < 0 := mul_neg_of_pos_of_neg (by linarith) (by linarith)
        rcases h with h | ⟨-, h⟩
        · exact absurd (mul_pos_of_neg_of_neg hlo hhi) (not_lt.2 h)
        · exact absurd hlo (not_lt.2 h)
    · have hlo : 0 < (lo - u) * (lo - w) := mul_pos_of_neg_of_neg (by linarith) (by linarith)
      have hhi : 0 < (hi - u) * (hi - w) := mul_pos_of_neg_of_neg (by linarith) (by linarith)
      rcases h with h | ⟨⟨-, h⟩, -⟩
      · exact absurd (mul_pos hlo hhi) (not_lt.2 h)
      · linarith

/-- **Roots in an interval.** Of the two roots, with `s` the square root of a
positive discriminant, one is in the interval if, and only if, the polynomial
changes sign there, or the vertex is there and the lower end is outside the
roots. -/
theorem exists_root_iff {a b c s lo hi : K} (ha : a ≠ 0) (hs : 0 < s) (hd : s * s = b * b - 4 * a * c)
    (hlohi : lo ≤ hi) :
    ((lo ≤ (-s - b) / 2 / a ∧ (-s - b) / 2 / a ≤ hi) ∨
      (lo ≤ (s - b) / 2 / a ∧ (s - b) / 2 / a ≤ hi)) ↔
      quadratic a b c lo * quadratic a b c hi ≤ 0 ∨
        (lo ≤ -b / 2 / a ∧ -b / 2 / a ≤ hi) ∧ 0 ≤ a * quadratic a b c lo := by
  have hfactor : ∀ x, quadratic a b c x = a * ((x - (-s - b) / 2 / a) * (x - (s - b) / 2 / a)) := by
    intro x
    unfold quadratic
    field_simp
    linear_combination hd
  have hvertex : -b / 2 / a = ((-s - b) / 2 / a + (s - b) / 2 / a) / 2 := by
    field_simp
    ring
  have hsq : 0 < a * a := mul_self_pos.2 ha
  have hproduct : ∀ p q : K, a * p * (a * q) ≤ 0 ↔ p * q ≤ 0 := by
    intro p q
    rw [mul_mul_mul_comm, ← not_lt, mul_pos_iff_of_pos_left hsq, not_lt]
  have hlower : ∀ p : K, 0 ≤ a * (a * p) ↔ 0 ≤ p := by
    intro p
    rw [← mul_assoc, mul_nonneg_iff_of_pos_left hsq]
  rw [hfactor lo, hfactor hi, hproduct, hlower, hvertex]
  rcases lt_or_gt_of_ne ha with hneg | hpos
  · have huw : (s - b) / 2 / a < (-s - b) / 2 / a := by
      rw [div_lt_div_right_of_neg hneg]
      linarith
    rw [or_comm, exists_factor_root_iff huw hlohi]
    simp only [mul_comm (lo - (-s - b) / 2 / a), mul_comm (hi - (-s - b) / 2 / a),
      add_comm ((-s - b) / 2 / a)]
  · have huw : (-s - b) / 2 / a < (s - b) / 2 / a := by
      rw [div_lt_div_iff_of_pos_right hpos]
      linarith
    exact exists_factor_root_iff huw hlohi

end Handystats.Quadratic
