/-
What `remove_empty_bins` leaves.

The loop passes over positions that are not surrounded by empty bins, two or
three at a time where it can tell, and erases at one that is: that is what
shortens the stretches of empty bins (`removeSurroundedBins_thins`). It is run on
the histogram without its leading and trailing empty bins.
-/
import Handystats.Library.Stretches
import Handystats.HistogramBounds

namespace Handystats

open MathUtils Stretches

variable {K : Type} [Field K] [LinearOrder K]

section

variable {hist : Histogram K} {index : Nat}

omit [Field K] [LinearOrder K] in
/-- Where the loop ends, at most one bin is to come. -/
theorem length_le_of_loop_end (hsize : hist.length < 2 ^ 64) (hend : ¬ index < sizeSub hist.length 1) :
    hist.length ≤ index + 1 := by
  rcases Nat.eq_zero_or_pos hist.length with h0 | hpos
  · omega
  · have hadd : hist.length + (2 ^ 64 - 1) = hist.length - 1 + 2 ^ 64 := by omega
    rw [sizeSub, hadd, Nat.add_mod_right, Nat.mod_eq_of_lt (by omega)] at hend
    omega

/-- **The loop of `remove_empty_bins`** thins out what comes from `index` on. -/
theorem removeSurroundedBins_thins {left : Histogram K} (hsize : hist.length < 2 ^ 64) (hindex : 1 ≤ index)
    (h : removeSurroundedBins hist index = .ok left) : left = thinFrom isEmptyBin hist index := by
  fun_induction removeSurroundedBins hist index
  case case2 hist index _ bin hbin _ hfull ih =>
    have hkept := fun i => not_surrounded_near (i := i) hbin (by simpa using hfull)
    have hhere := hkept index hindex (by omega) (by omega)
    have hnext := hkept (index + 1) (by omega) (by omega) (by omega)
    rw [ih hsize (by omega) h, thinFrom_keep hnext, thinFrom_keep hhere]
  case case4 hist index _ bin _ _ _ right hright hfull ih =>
    -- The bin on the right keeps itself and both of its neighbours.
    have hkept := fun i => not_surrounded_near (i := i) hright (by simpa using hfull)
    have hhere := hkept index hindex (by omega) (by omega)
    have hnext := hkept (index + 1) (by omega) (by omega) (by omega)
    have hnext' := hkept (index + 1 + 1) (by omega) (by omega) (by omega)
    rw [ih hsize (by omega) h, thinFrom_keep hnext', thinFrom_keep hnext, thinFrom_keep hhere]
  case case6 hleft hfull ih =>
    have hhere := not_surrounded_near hleft (by simpa using hfull) hindex (by omega) (by omega)
    rw [ih hsize (by omega) h, thinFrom_keep hhere]
  case case7 hist index _ bin hbin _ hempty right hright hempty' left hleft hempty'' ih =>
    have hhere : surrounded isEmptyBin hist index = true := by
      simp only [Bool.not_eq_true', Bool.not_eq_false] at hempty hempty' hempty''
      simp [surrounded, hbin, hright, hleft, hempty, hempty', hempty'']
    have hlen : (hist.eraseIdx index).length < 2 ^ 64 := (List.length_eraseIdx_le hist index).trans_lt hsize
    rw [ih hlen hindex h, thinFrom_erase hindex hhere]
  case case8 hend =>
    rw [thinFrom_of_length_le (length_le_of_loop_end hsize hend)]
    exact (Except.ok.inj h).symm
  -- The remaining cases read an element that does not exist.
  all_goals cases h

end

/-- **What `remove_empty_bins` leaves** of a vector (whose size is a `size_t`)
with a bin that is not empty: it is without its leading and trailing empty
bins, each stretch of three or more empty bins is left its ends, and all else is as
it was. So no empty bin is left between two empty ones, and no other bin is
lost. -/
theorem remove_empty_bins_spec [IsStrictOrderedRing K] {hist : Histogram K} (hsize : hist.length < 2 ^ 64)
    (hfull : ∃ bin ∈ hist, doubleEps < bin.count) :
    ∃ left, removeEmptyBins hist = .ok left ∧
      left = shorten isEmptyBin (trim isEmptyBin hist) ∧
      (∀ i before bin after, left[i]? = some before → left[i + 1]? = some bin → left[i + 2]? = some after →
        ¬ (isEmptyBin before = true ∧ isEmptyBin bin = true ∧ isEmptyBin after = true)) ∧
      left.filter (fun bin => !isEmptyBin bin) = hist.filter fun bin => !isEmptyBin bin := by
  obtain ⟨bin, hmem, hbin⟩ := hfull
  obtain ⟨left, hleft⟩ := removeEmptyBins_returns_iff.2 ⟨bin, hmem, not_isEmptyBin_iff.2 hbin⟩
  have hshort : left = shorten isEmptyBin (trim isEmptyBin hist) := by
    rw [← thinFrom_one]
    exact removeSurroundedBins_thins ((length_trim_le hist).trans_lt hsize) le_rfl hleft
  refine ⟨left, hleft, hshort, fun i before bin after h₀ h₁ h₂ hempty => ?_, ?_⟩
  · have hnone := not_surrounded_shorten (p := isEmptyBin) (trim isEmptyBin hist) i
    rw [← hshort] at hnone
    simp [surrounded, h₀, h₁, h₂, hempty] at hnone
  · rw [hshort, filter_shorten, filter_trim]

theorem remove_empty_bins_sample :
    removeEmptyBins ([⟨0, 0, 0⟩, ⟨1, 1, 0⟩, ⟨2, 0, 0⟩, ⟨3, 0, 0⟩, ⟨4, 0, 0⟩, ⟨5, 2, 0⟩] : Histogram ℚ) =
      .ok [⟨1, 1, 0⟩, ⟨2, 0, 0⟩, ⟨4, 0, 0⟩, ⟨5, 2, 0⟩] := by
  let hist : Histogram ℚ := [⟨0, 0, 0⟩, ⟨1, 1, 0⟩, ⟨2, 0, 0⟩, ⟨3, 0, 0⟩, ⟨4, 0, 0⟩, ⟨5, 2, 0⟩]
  have hfull : ∃ bin ∈ hist, doubleEps < bin.count := ⟨⟨1, 1, 0⟩, by decide, by decide +kernel⟩
  obtain ⟨left, hleft, hshort, -⟩ := remove_empty_bins_spec (by decide) hfull
  rw [hleft, hshort]
  exact congrArg Except.ok (by decide +kernel)

end Handystats
