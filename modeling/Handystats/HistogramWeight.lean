/-
The total of the histogram's counts, and the weight with which a value enters
it.

What leaves the total is what the pruning and the merge of an empty pair
discard (`reduceHistogram_total`). What enters it is 1 for a value that is
not newer than `m_timestamp`. A newer one is inserted before the time moves
on to its own timestamp and is faded on the way like all other bins, although
it is stamped with that timestamp: it enters with `M / (M + t - T)`.
-/
import Handystats.HistogramFacts

namespace Handystats

open Runs Fading MathUtils

variable {K : Type} [Field K] [LinearOrder K]

/-- The bins that `update_histogram` discards from `hist`: what
`remove_empty_bins` erases and, where two empty bins are merged, those two. -/
def discardedBins (histogramBins : Nat) (hist : Histogram K) : Except Fault (Histogram K) := do
  if hist.length ≤ histogramBins then .ok []
  else
    let pruned ← removeEmptyBins hist
    let erased := hist.diff pruned
    if pruned.length ≤ histogramBins then .ok erased
    else
      let leftBin ← elementAt pruned (bestMergeIndex pruned)
      let rightBin ← elementAt pruned (bestMergeIndex pruned + 1)
      .ok (erased ++ if isEmptyBin leftBin && isEmptyBin rightBin then [leftBin, rightBin] else [])

namespace Histogram

variable {hist left : Histogram K}

omit [LinearOrder K] in
@[simp] theorem total_nil : total ([] : Histogram K) = 0 := rfl

omit [LinearOrder K] in
@[simp] theorem total_cons (bin : Bin K) (hist : Histogram K) :
    total (bin :: hist) = bin.count + total hist := by
  simp [total]

omit [LinearOrder K] in
@[simp] theorem total_append (hist left : Histogram K) :
    total (hist ++ left) = total hist + total left := by
  simp [total]

omit [LinearOrder K] in
theorem total_perm (h : hist.Perm left) : total hist = total left := (h.map Bin.count).sum_eq

theorem total_nonneg [IsOrderedAddMonoid K] (h : ∀ bin ∈ hist, 0 ≤ bin.count) : 0 ≤ total hist := by
  refine List.sum_nonneg fun x hx => ?_
  obtain ⟨bin, hbin, rfl⟩ := List.mem_map.1 hx
  exact h bin hbin

end Histogram

/-- What a pruning removes is the multiset difference. -/
theorem Prunes.diff_perm {hist left removed : Histogram K} (h : Prunes hist left removed) :
    (hist.diff left).Perm removed := by
  refine (List.perm_append_left_iff left).1 (.trans ?_ h.perm)
  exact List.subperm_append_diff_self_of_count_le fun bin _ => h.sublist.count_le bin

/-- What is discarded was in the histogram. -/
theorem discardedBins_subset {bins : Nat} {hist removed : Histogram K}
    (hd : discardedBins bins hist = .ok removed) : removed ⊆ hist := by
  unfold discardedBins at hd
  split_ifs at hd with hlen
  · obtain rfl := Except.ok.inj hd
    exact List.nil_subset hist
  · obtain ⟨pruned, hp, hd⟩ := bind_eq_ok.1 hd
    obtain ⟨erased, hprunes⟩ := removeEmptyBins_ok hp
    split_ifs at hd with hlen'
    · obtain rfl := Except.ok.inj hd
      exact List.diff_subset _ _
    · obtain ⟨l, hl, hd⟩ := bind_eq_ok.1 hd
      obtain ⟨r, hr, hd⟩ := bind_eq_ok.1 hd
      obtain rfl := Except.ok.inj hd
      have hml : l ∈ pruned := List.mem_of_getElem? (elementAt_ok.1 hl)
      have hmr : r ∈ pruned := List.mem_of_getElem? (elementAt_ok.1 hr)
      refine List.append_subset.2 ⟨List.diff_subset _ _, ?_⟩
      split_ifs
      · simp [hprunes.sublist.subset hml, hprunes.sublist.subset hmr]
      · exact List.nil_subset hist

/-- A reduction by one bin discards two at the most. -/
theorem discardedBins_length {bins : Nat} {hist reduced removed : Histogram K}
    (hlen : hist.length ≤ bins + 1) (h : Statistics.reduceHistogram bins hist = .ok reduced)
    (hone : reduced.length + 1 = hist.length) (hd : discardedBins bins hist = .ok removed) :
    removed.length ≤ 2 := by
  rcases reduceHistogram_ok.1 h with ⟨-, rfl⟩ | ⟨hmany, pruned, hp, hcases⟩
  · omega
  obtain ⟨erased, hprunes⟩ := removeEmptyBins_ok hp
  have hdiff : pruned.length + (hist.diff pruned).length = hist.length := by
    rw [hprunes.diff_perm.length_eq, ← List.length_append, hprunes.perm.length_eq]
  rw [discardedBins, if_neg (not_le.2 hmany), hp] at hd
  change (if pruned.length ≤ bins then _ else _) = _ at hd
  rcases hcases with ⟨hle, rfl⟩ | ⟨hlt, -⟩
  · rw [if_pos hle, Except.ok.injEq] at hd
    subst hd; omega
  · rw [if_neg (not_le.2 hlt)] at hd
    simp only [bind_eq_ok, Except.ok.injEq] at hd
    obtain ⟨l, -, r, -, rfl⟩ := hd
    have hnone : (hist.diff pruned).length = 0 := by omega
    rw [List.length_append, hnone]
    split_ifs <;> simp

variable [IsStrictOrderedRing K]

/-- What `update_histogram`'s second part does to the total: what it discards
is missing, and all of that is empty. -/
theorem reduceHistogram_total {bins : Nat} {hist reduced : Histogram K}
    (hcount : ∀ bin ∈ hist, 0 ≤ bin.count) (h : Statistics.reduceHistogram bins hist = .ok reduced) :
    ∃ removed, discardedBins bins hist = .ok removed ∧ (∀ bin ∈ removed, bin.count ≤ doubleEps) ∧
      reduced.total + Histogram.total removed = hist.total := by
  rcases reduceHistogram_ok.1 h with ⟨hlen, rfl⟩ | ⟨hlen, pruned, hp, hcases⟩
  · exact ⟨[], by rw [discardedBins, if_pos hlen], by simp, by simp⟩
  obtain ⟨removed, hprunes⟩ := removeEmptyBins_ok hp
  have herased : ∀ bin ∈ hist.diff pruned, bin.count ≤ doubleEps := fun bin hb =>
    isEmptyBin_iff.1 (hprunes.empty bin (hprunes.diff_perm.subset hb))
  have htotal : pruned.total + Histogram.total (hist.diff pruned) = hist.total := by
    rw [Histogram.total_perm hprunes.diff_perm, ← Histogram.total_append,
      Histogram.total_perm hprunes.perm]
  rcases hcases with ⟨hlen', rfl⟩ | ⟨hlen', hm⟩
  · refine ⟨hist.diff reduced, ?_, herased, htotal⟩
    rw [discardedBins, if_neg (not_le.2 hlen), hp]
    exact if_pos hlen'
  · obtain ⟨before, l, r, after, bin, hpruned, hindex, hbin, rfl⟩ := mergeClosest_ok hm
    have hmem : l ∈ pruned ∧ r ∈ pruned := by simp [hpruned]
    obtain ⟨bin', hbin', -, hbc, -⟩ := mergedBin_spec
      (hcount l (hprunes.sublist.subset hmem.1)) (hcount r (hprunes.sublist.subset hmem.2))
    obtain rfl : bin = bin' := Except.ok.inj (hbin.symm.trans hbin')
    refine ⟨hist.diff pruned ++ if isEmptyBin l && isEmptyBin r then [l, r] else [], ?_, ?_, ?_⟩
    · have hl : elementAt pruned (bestMergeIndex pruned) = .ok l := by
        rw [elementAt_ok, ← hindex, hpruned]; simp
      have hr : elementAt pruned (bestMergeIndex pruned + 1) = .ok r := by
        rw [elementAt_ok, ← hindex, hpruned]; simp
      rw [discardedBins, if_neg (not_le.2 hlen), hp]
      change (if pruned.length ≤ bins then _ else _) = _
      rw [if_neg (not_le.2 hlen'), hl, hr]
      rfl
    · intro b hb
      rcases List.mem_append.1 hb with hb | hb
      · exact herased b hb
      · split_ifs at hb with hempty
        · rw [Bool.and_eq_true, isEmptyBin_iff, isEmptyBin_iff] at hempty
          simp only [List.mem_cons, List.not_mem_nil, or_false] at hb
          rcases hb with rfl | rfl
          · exact hempty.1
          · exact hempty.2
        · simp at hb
    · rw [← htotal, hpruned]
      simp only [Histogram.total_append, Histogram.total_cons, hbc]
      split_ifs <;> simp <;> ring

namespace Statistics

variable {pf : Platform K} {config : StatisticsConfig} {st st' : Statistics K}

/-- The total after `update(value, timestamp)` is 1 and the total of the
previous bins, faded to the time the call leaves, less what is discarded. -/
def EntersWithWeightOne (pf : Platform K) (st : Statistics K) (value : K) (timestamp : Int)
    (st' : Statistics K) : Prop :=
  ∃ removed, discardedBins st.config.histogramBins (st.insertAndShift pf value timestamp) = .ok removed ∧
    (∀ bin ∈ removed, bin.count ≤ doubleEps) ∧
    st'.histogram.total + Histogram.total removed =
      1 + Histogram.total (st.shiftHistogram pf (max timestamp st.timestamp))

omit [IsStrictOrderedRing K] in
/-- Before anything is discarded: the previous bins faded, and the share the
new one keeps. -/
theorem insertAndShift_total (hbins : st.config.histogramBins ≠ 0)
    (hs : SortedByCenter st.histogram) (v : K) (t : Int) :
    (st.insertAndShift pf v t).total =
      st.kept pf t t + Histogram.total (st.shiftHistogram pf (max t st.timestamp)) := by
  have hmax : ∀ bin, st.fadedBin pf (max t st.timestamp) bin = st.fadedBin pf t bin := by
    intro bin
    rcases le_total t st.timestamp with h | h
    · rw [max_eq_right h, fadedBin_of_le h, fadedBin_of_le le_rfl]
    · rw [max_eq_left h]
  have hperm := List.perm_insertIdx ⟨v, 1, t⟩ st.histogram
    (pf.lowerBound_correct st.histogram ⟨v, 1, t⟩ hs).le_length
  rw [insertAndShift_eq hbins, Histogram.total_perm (hperm.map _), shiftHistogram_eq hbins,
    List.map_congr_left fun bin _ => hmax bin]
  simp [fadedBin]

/-- What the total is after `update`. -/
theorem update_total (htag : st.computed .histogram = true) (hbins : st.config.histogramBins ≠ 0)
    {calls : List (Call K)} (hI : HistogramInv calls st) {v : K} {t : Int}
    (h : st.update pf v t = .ok st') :
    ∃ removed, discardedBins st.config.histogramBins (st.insertAndShift pf v t) = .ok removed ∧
      (∀ bin ∈ removed, bin.count ≤ doubleEps) ∧
      st'.histogram.total + Histogram.total removed =
        st.kept pf t t + Histogram.total (st.shiftHistogram pf (max t st.timestamp)) := by
  obtain ⟨hist, hhist, rfl⟩ := update_ok.1 h
  rcases update_histogram_cases.1 hhist with ⟨hno, -⟩ | ⟨-, -, hreduced⟩
  · simp [htag, hbins] at hno
  have hs := hI.wellFormed.sorted
  rw [← insertAndShift_total hbins hs]
  exact reduceHistogram_total (hI.insertAndShift_count_nonneg hbins v t) hreduced

/-- **A value enters the histogram with weight one** if, and only if, it is
not newer than `m_timestamp`; how old it may be does not matter. -/
theorem enters_with_weight_one_iff (hM : 0 < pf.clock.count config.movingInterval)
    (hbins : 1 ≤ config.histogramBins) (htag : config.computed .histogram = true)
    (hr : Reachable pf config st) {v : K} {t : Int} (h : st.update pf v t = .ok st') :
    EntersWithWeightOne pf st v t st' ↔ t ≤ st.timestamp := by
  obtain ⟨calls, hcalls⟩ := hr
  have hcfg := hcalls.reachable.config_eq
  obtain ⟨removed, hd, hempty, htotal⟩ := update_total (by rw [computed, hcfg, htag])
    (by rw [hcfg]; omega) hcalls.histogramInv h
  have hkept : st.kept pf t t = 1 ↔ t ≤ st.timestamp :=
    keep_self_eq_one (by rw [hcalls.reachable.interval_eq]; exact hM)
  rw [← hkept]
  constructor
  · intro h
    obtain ⟨removed', hd', -, htotal'⟩ := h
    obtain rfl := Except.ok.inj (hd.symm.trans hd')
    exact add_right_cancel (htotal.symm.trans htotal')
  · intro hone
    exact ⟨removed, hd, hempty, by rw [htotal, hone]⟩

/-- A late value, among the two faded ones before it. -/
theorem enters_with_weight_one_sample :
    ∃ st st' : Statistics ℚ,
      RunsTo (.inUnit .nsec) (sampleConfig 2 Tag.histogram.bit) [.update 5 0, .update 1 600] st ∧
      st.histogram.length = 2 ∧ st.update (.inUnit .nsec) 3 500 = .ok st' ∧
      EntersWithWeightOne (.inUnit .nsec) st 3 500 st' := by
  obtain ⟨st, hst, hlen, hlate, hupdate⟩ : ∃ st : Statistics ℚ,
      run (step (.inUnit .nsec)) (initial (sampleConfig 2 Tag.histogram.bit))
        [.update 5 0, .update 1 600] = .ok st ∧
      st.histogram.length = 2 ∧ 500 ≤ st.timestamp ∧
      (st.update (.inUnit .nsec) 3 500).toBool = true := by
    decide +kernel
  obtain ⟨st', h⟩ := exists_ok_of_toBool hupdate
  exact ⟨st, st', hst, hlen, h,
    (enters_with_weight_one_iff (by decide +kernel) (by decide) (by decide +kernel) ⟨_, hst⟩ h).2 hlate⟩

/-- The first value of a fresh object, one moving interval after the epoch:
it enters with weight one half. -/
theorem first_observation_half :
    ∃ st' : Statistics ℚ,
      (initial (sampleConfig 2 Tag.histogram.bit)).update (.inUnit .nsec) 0 1000 = .ok st' ∧
      st'.histogram.total = 1 / 2 ∧
      ¬ EntersWithWeightOne (.inUnit .nsec) (initial (sampleConfig 2 Tag.histogram.bit)) 0 1000 st' := by
  let st : Statistics ℚ := initial (sampleConfig 2 Tag.histogram.bit)
  have hhist : (if st.computed .histogram then st.updateHistogram (.inUnit .nsec) 0 1000
      else .ok st.histogram) = .ok [⟨0, 1 / 2, 1000⟩] := by decide +kernel
  refine ⟨_, update_ok.2 ⟨_, hhist, rfl⟩, by decide +kernel, ?_⟩
  intro h
  obtain ⟨removed, hd, -, htotal⟩ := h
  have hd' : discardedBins 2 (st.insertAndShift (.inUnit .nsec) 0 1000) = .ok [] := by decide +kernel
  obtain rfl := Except.ok.inj (hd'.symm.trans hd)
  revert htotal
  decide +kernel

end Statistics

end Handystats
