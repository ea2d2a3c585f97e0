/-
Linear fading of data over a moving window.

A window of length `M` has its end at `T`. A datum stamped `D` counts in full
while the end stands still, and is spread evenly over the part of the window
that is not older than `D`: when the end moves on to `t`, the share
`(D + M - t) / (D + M - T)` of it stays, and none once `D + M ≤ t`.

`keep_mul_keep` is the law the clients rest on: fading in two steps is fading
in one.
-/
import Mathlib.Tactic
import Mathlib.Algebra.Order.Field.Basic
import Mathlib.Algebra.Order.Ring.Cast

namespace Handystats.Fading

variable {K : Type} [Field K]

/-- The share of a datum stamped `D` that stays when the end of a window of
length `M` moves from `T` to `t`. -/
def keep (M T D t : Int) : K :=
  if t ≤ T then 1
  else if D - (t - M) ≤ 0 then 0
  else ((D - (t - M) : Int) : K) / ((M - (T - D) : Int) : K)

theorem keep_of_le {M T D t : Int} (h : t ≤ T) : (keep M T D t : K) = 1 := by simp [keep, h]

theorem keep_of_expired {M T D t : Int} (h : T < t) (hd : D + M ≤ t) : (keep M T D t : K) = 0 := by
  rw [keep, if_neg (by omega), if_pos (by omega)]

theorem keep_of_live {M T D t : Int} (h : T < t) (hd : t < D + M) :
    (keep M T D t : K) = ((D + M - t : Int) : K) / ((D + M - T : Int) : K) := by
  rw [keep, if_neg (by omega), if_neg (by omega)]
  congr 2 <;> omega

/-- Where the ratio is taken, its denominator is positive. -/
theorem denominator_pos {M T D t : Int} (h : T < t) (hd : 0 < D - (t - M)) : 0 < M - (T - D) := by
  omega

/-- The three cases of a fade: the end does not move, the datum is expired,
the datum is live. -/
theorem keep_cases (M T D t : Int) :
    (t ≤ T ∧ (keep M T D t : K) = 1) ∨ (T < t ∧ D + M ≤ t ∧ (keep M T D t : K) = 0) ∨
      (T < t ∧ t < D + M ∧ (keep M T D t : K) = ((D + M - t : Int) : K) / ((D + M - T : Int) : K)) := by
  rcases le_or_gt t T with h | h
  · exact .inl ⟨h, keep_of_le h⟩
  · rcases le_or_gt (D + M) t with hd | hd
    · exact .inr (.inl ⟨h, hd, keep_of_expired h hd⟩)
    · exact .inr (.inr ⟨h, hd, keep_of_live h hd⟩)

/-- A datum stamped with the new end keeps the share that the window's length
has in the length and the move. -/
theorem keep_self {M T t : Int} (hM : 0 < M) (h : T < t) :
    (keep M T t t : K) = (M : K) / ((M + (t - T) : Int) : K) := by
  rw [keep_of_live h (by omega)]
  congr 2 <;> omega

variable [LinearOrder K] [IsStrictOrderedRing K]

theorem keep_nonneg (M T D t : Int) : (0 : K) ≤ keep M T D t := by
  rcases keep_cases (K := K) M T D t with ⟨-, h⟩ | ⟨-, -, h⟩ | ⟨h₁, h₂, h⟩ <;> rw [h]
  · exact zero_le_one
  · exact div_nonneg (Int.cast_nonneg (by omega)) (Int.cast_nonneg (by omega))

theorem keep_le_one (M T D t : Int) : (keep M T D t : K) ≤ 1 := by
  rcases keep_cases (K := K) M T D t with ⟨-, h⟩ | ⟨-, -, h⟩ | ⟨h₁, h₂, h⟩ <;> rw [h]
  · exact zero_le_one
  · have hpos : (0 : K) < ((D + M - T : Int) : K) := Int.cast_pos.2 (by omega)
    rw [div_le_one hpos]
    exact Int.cast_le.2 (by omega)

/-- **Path independence.** Fading to `t₁` and on to `t₂` is fading to `t₂`. -/
theorem keep_mul_keep {M T D t₁ t₂ : Int} (h₁ : T ≤ t₁) (h₂ : t₁ ≤ t₂) :
    (keep M T D t₁ * keep M t₁ D t₂ : K) = keep M T D t₂ := by
  rcases h₁.eq_or_lt with rfl | h₁
  · rw [keep_of_le le_rfl, one_mul]
  rcases h₂.eq_or_lt with rfl | h₂
  · rw [keep_of_le (T := t₁) le_rfl, mul_one]
  rcases le_or_gt (D + M) t₂ with hd | hd
  · rw [keep_of_expired h₂ hd, keep_of_expired (h₁.trans h₂) hd, mul_zero]
  · have hne : ((D + M - t₁ : Int) : K) ≠ 0 := Int.cast_ne_zero.2 (by omega)
    rw [keep_of_live h₁ (by omega), keep_of_live h₂ hd, keep_of_live (h₁.trans h₂) hd,
      div_mul_div_comm, mul_comm, mul_div_mul_right _ _ hne]

/-- It counts in full only when the end stands still. -/
theorem keep_self_eq_one {M T t : Int} (hM : 0 < M) : (keep M T t t : K) = 1 ↔ t ≤ T := by
  refine ⟨fun h => ?_, keep_of_le⟩
  by_contra ht
  have hpos : ((M + (t - T) : Int) : K) ≠ 0 := Int.cast_ne_zero.2 (by omega)
  rw [keep_self hM (not_le.1 ht), div_eq_one_iff_eq hpos, Int.cast_inj] at h
  omega

/-- Newer data keep more. -/
theorem keep_mono {M T D D' t : Int} (h : D ≤ D') : (keep M T D t : K) ≤ keep M T D' t := by
  rcases le_or_gt t T with ht | ht
  · rw [keep_of_le ht, keep_of_le ht]
  rcases le_or_gt (D + M) t with hd | hd
  · rw [keep_of_expired ht hd]; exact keep_nonneg _ _ _ _
  · rw [keep_of_live ht hd, keep_of_live ht (by omega),
      div_le_div_iff₀ (Int.cast_pos.2 (by omega)) (Int.cast_pos.2 (by omega))]
    have hmul : (D + M - t) * (D' + M - T) ≤ (D' + M - t) * (D + M - T) := by nlinarith
    exact_mod_cast hmul

end Handystats.Fading
