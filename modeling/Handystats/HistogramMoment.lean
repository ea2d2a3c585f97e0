/-
What the reduction of the histogram conserves.

Where every bin is either at count 0 or above the tolerance, nothing that is
pruned weighs anything, and a pair is merged at its center of mass: the total of
the counts and the first moment stay (`reduction_conserves_moments`). The pair is
a closest one as far as the scan for it can tell (`bestMergeIndex_least`).
-/
import Handystats.HistogramWeight
import Handystats.HistogramBounds

namespace Handystats

open Runs MathUtils

variable {K : Type} [Field K]

/-- The first moment: each center weighed with its count. -/
def Histogram.moment (hist : Histogram K) : K := (hist.map fun bin => bin.center * bin.count).sum

namespace Histogram

variable {hist left : Histogram K}

@[simp] theorem moment_nil : moment ([] : Histogram K) = 0 := rfl

@[simp] theorem moment_cons (bin : Bin K) (hist : Histogram K) :
    moment (bin :: hist) = bin.center * bin.count + moment hist := by
  simp [moment]

@[simp] theorem moment_append (hist left : Histogram K) :
    moment (hist ++ left) = moment hist + moment left := by
  simp [moment]

theorem moment_perm (h : hist.Perm left) : moment hist = moment left :=
  (h.map fun bin : Bin K => bin.center * bin.count).sum_eq

/-- Bins at count 0 weigh nothing. -/
theorem weightless (h : ∀ bin ∈ hist, bin.count = 0) : total hist = 0 ∧ moment hist = 0 := by
  induction hist with
  | nil => simp
  | cons bin hist ih =>
    obtain ⟨htotal, hmoment⟩ := ih fun b hb => h b (List.mem_cons_of_mem _ hb)
    simp [h bin (by simp), htotal, hmoment]

end Histogram

variable [LinearOrder K]

/-- `reduced` is `pruned` with two neighbours merged, and no two others are closer
by more than the tolerance. -/
def MergesClosest (pruned reduced : Histogram K) : Prop :=
  ∃ before left right after merged, pruned = before ++ left :: right :: after ∧
    mergedBin left right = .ok merged ∧ reduced = before ++ merged :: after ∧
    ∀ i l r, pruned[i]? = some l → pruned[i + 1]? = some r →
      right.center - left.center ≤ r.center - l.center + doubleEps

variable [IsStrictOrderedRing K]

theorem nonneg_of_zero_or_above {c : K} (h : c = 0 ∨ doubleEps < c) : 0 ≤ c := by
  rcases h with h | h
  · exact h.ge
  · exact (doubleEps_pos.trans h).le

section Merge

variable {left right bin : Bin K} (hl : left.count = 0 ∨ doubleEps < left.count)
variable (hr : right.count = 0 ∨ doubleEps < right.count)

include hl hr in
/-- A pair is merged at its center of mass. -/
theorem mergedBin_conserves (h : mergedBin left right = .ok bin) :
    bin.count = left.count + right.count ∧
      bin.center * bin.count = left.center * left.count + right.center * right.count := by
  by_cases hempty : (isEmptyBin left && isEmptyBin right) = true
  · obtain rfl := Except.ok.inj ((mergedBin_of_empty hempty).symm.trans h)
    rw [Bool.and_eq_true, isEmptyBin_iff, isEmptyBin_iff] at hempty
    have hl0 : left.count = 0 := hl.resolve_right (not_lt.2 hempty.1)
    have hr0 : right.count = 0 := hr.resolve_right (not_lt.2 hempty.2)
    simp [hl0, hr0]
  · obtain ⟨hsum, hmerged⟩ :=
      mergedBin_of_not_empty (nonneg_of_zero_or_above hl) (nonneg_of_zero_or_above hr) hempty
    obtain rfl := Except.ok.inj (hmerged.symm.trans h)
    exact ⟨rfl, div_mul_cancel₀ _ hsum.ne'⟩

end Merge

/-! ## The reduction -/

section Reduction

variable {hist : Histogram K} (hcount : ∀ bin ∈ hist, bin.count = 0 ∨ doubleEps < bin.count)

include hcount in
/-- What is pruned weighs nothing. -/
theorem removeEmptyBins_conserves {pruned : Histogram K} (h : removeEmptyBins hist = .ok pruned) :
    pruned.Sublist hist ∧ pruned.total = hist.total ∧ pruned.moment = hist.moment := by
  obtain ⟨removed, hprunes⟩ := removeEmptyBins_ok h
  have hzero : ∀ bin ∈ removed, bin.count = 0 := by
    intro bin hb
    have hempty := isEmptyBin_iff.1 (hprunes.empty bin hb)
    have hmem : bin ∈ hist := hprunes.perm.symm.subset (List.mem_append_right _ hb)
    exact (hcount bin hmem).resolve_right (not_lt.2 hempty)
  obtain ⟨htotal, hmoment⟩ := Histogram.weightless hzero
  refine ⟨hprunes.sublist, ?_, ?_⟩
  · rw [Histogram.total_perm hprunes.perm, Histogram.total_append, htotal, add_zero]
  · rw [Histogram.moment_perm hprunes.perm, Histogram.moment_append, hmoment, add_zero]

include hcount in
/-- The merge conserves both sums, and merges a closest pair. -/
theorem mergeClosest_conserves (hlen : 2 ≤ hist.length) {merged : Histogram K}
    (h : mergeClosest hist = .ok merged) :
    merged.total = hist.total ∧ merged.moment = hist.moment ∧ MergesClosest hist merged := by
  obtain ⟨l', r', hl', hr', hleast⟩ := bestMergeIndex_least hlen
  obtain ⟨before, l, r, after, bin, hhist, hindex, hbin, rfl⟩ := mergeClosest_ok h
  obtain rfl : l = l' := by
    rw [← hindex, hhist] at hl'
    simpa using hl'
  obtain rfl : r = r' := by
    rw [← hindex, hhist] at hr'
    simpa using hr'
  have hmem : l ∈ hist ∧ r ∈ hist := by simp [hhist]
  obtain ⟨hbc, hbm⟩ := mergedBin_conserves (hcount l hmem.1) (hcount r hmem.2) hbin
  refine ⟨?_, ?_, before, l, r, after, bin, hhist, hbin, rfl, hleast⟩
  · rw [hhist]
    simp only [Histogram.total_append, Histogram.total_cons, hbc, add_assoc]
  · rw [hhist]
    simp only [Histogram.moment_append, Histogram.moment_cons, hbm, add_assoc]

end Reduction

/-- **The reduction conserves mass and first moment.** Of a sorted histogram with
bins to spare, each at count 0 or above the tolerance and not all at 0, pruning
and merging keep the total of the counts, the first moment and the order; and
where pruning is not enough, the pair that is merged is a closest one of what
pruning left, up to the tolerance. -/
theorem reduction_conserves_moments {bins : Nat} {hist : Histogram K} (hbins : 1 ≤ bins)
    (hlen : bins < hist.length) (hs : SortedByCenter hist)
    (hcount : ∀ bin ∈ hist, bin.count = 0 ∨ doubleEps < bin.count) (hne : ∃ bin ∈ hist, bin.count ≠ 0) :
    ∃ pruned reduced, removeEmptyBins hist = .ok pruned ∧
      Statistics.reduceHistogram bins hist = .ok reduced ∧
      reduced.total = hist.total ∧ reduced.moment = hist.moment ∧ SortedByCenter reduced ∧
      ((pruned.length ≤ bins ∧ reduced = pruned) ∨
        (bins < pruned.length ∧ MergesClosest pruned reduced)) := by
  obtain ⟨bin, hmem, hbin⟩ := hne
  have hfull : isEmptyBin bin = false := not_isEmptyBin_iff.2 ((hcount bin hmem).resolve_left hbin)
  obtain ⟨pruned, hp⟩ := removeEmptyBins_returns_iff.2 ⟨bin, hmem, hfull⟩
  obtain ⟨hsub, htotal, hmoment⟩ := removeEmptyBins_conserves hcount hp
  have hsorted : SortedByCenter pruned := hs.sublist hsub
  rcases Nat.lt_or_ge bins pruned.length with hmany | hfew
  · have hcount' : ∀ bin ∈ pruned, bin.count = 0 ∨ doubleEps < bin.count :=
      fun bin hb => hcount bin (hsub.subset hb)
    have hnonneg : ∀ bin ∈ pruned, 0 ≤ bin.count := fun bin hb => nonneg_of_zero_or_above (hcount' bin hb)
    obtain ⟨merged, hm⟩ := mergeClosest_returns hnonneg (show 2 ≤ pruned.length by omega)
    obtain ⟨htotal', hmoment', hclosest⟩ := mergeClosest_conserves hcount' (by omega) hm
    exact ⟨pruned, merged, hp, reduceHistogram_ok.2 (.inr ⟨hlen, pruned, hp, .inr ⟨hmany, hm⟩⟩),
      htotal'.trans htotal, hmoment'.trans hmoment, hsorted.mergeClosest hnonneg hm, .inr ⟨hmany, hclosest⟩⟩
  · exact ⟨pruned, pruned, hp, reduceHistogram_ok.2 (.inr ⟨hlen, pruned, hp, .inl ⟨hfew, rfl⟩⟩),
      htotal, hmoment, hsorted, .inl ⟨hfew, rfl⟩⟩

theorem reduction_conserves_moments_sample :
    ∃ reduced, Statistics.reduceHistogram 2
        ([⟨0, 0, 0⟩, ⟨1, 1, 0⟩, ⟨2, 0, 0⟩, ⟨5, 1, 0⟩, ⟨6, 3, 0⟩] : Histogram ℚ) = .ok reduced ∧
      reduced.total = 5 ∧ reduced.moment = 24 := by
  let hist : Histogram ℚ := [⟨0, 0, 0⟩, ⟨1, 1, 0⟩, ⟨2, 0, 0⟩, ⟨5, 1, 0⟩, ⟨6, 3, 0⟩]
  have hs : SortedByCenter hist := by unfold SortedByCenter; decide +kernel
  have hcount : ∀ bin ∈ hist, bin.count = 0 ∨ doubleEps < bin.count := by decide +kernel
  have hlen : 2 < hist.length := by decide
  obtain ⟨-, reduced, -, hr, htotal, hmoment, -⟩ := reduction_conserves_moments one_le_two hlen hs hcount
    ⟨⟨1, 1, 0⟩, by decide, by decide +kernel⟩
  refine ⟨reduced, hr, ?_, ?_⟩
  · rw [htotal]
    decide +kernel
  · rw [hmoment]
    decide +kernel

end Handystats
