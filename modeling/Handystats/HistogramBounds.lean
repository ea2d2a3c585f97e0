/-
Where the maintenance of the histogram stays in bounds.

`remove_empty_bins` and the merge index only bins that exist as long as one bin
is not empty; a histogram of empty bins is pruned to no bin at all, whose
`size() - 1` is `SIZE_MAX`. Before the pruning all bins are empty exactly when
the time has moved on so far that the new bin, faded on its way in, is below the
tolerance: everything older has then left the window.
-/
import Handystats.MetricsFacts

namespace Handystats

open Runs Fading MathUtils

variable {K : Type} [Field K] [LinearOrder K]

/-! ## The loop of `remove_empty_bins` -/

/-- `size() - 1` of a vector that has an element. -/
theorem sizeSub_one_le {n : Nat} (h : n ≠ 0) : sizeSub n 1 ≤ n - 1 := by
  have hadd : n + (2 ^ 64 - 1) = n - 1 + 2 ^ 64 := by omega
  rw [sizeSub, hadd, Nat.add_mod_right]
  exact Nat.mod_le _ _

/-- A histogram that has a bin keeps one, and the loop reads no bin that does
not exist. -/
theorem removeSurroundedBins_total {hist : Histogram K} {i : Nat} (hne : hist ≠ []) (hi : 1 ≤ i) :
    ∃ left, removeSurroundedBins hist i = .ok left ∧ left ≠ [] := by
  have hlt : ∀ {hist : Histogram K} {i : Nat}, hist ≠ [] → i < sizeSub hist.length 1 →
      i + 1 < hist.length := by
    intro hist i hne hi
    have := sizeSub_one_le (n := hist.length) (by simpa using hne)
    omega
  have hread : ∀ {hist : Histogram K} {i : Nat}, i < hist.length → hist[i]? ≠ none := by
    intro hist i hi
    rw [List.getElem?_eq_getElem hi]
    exact Option.some_ne_none _
  fun_induction removeSurroundedBins hist i
  case case2 ih => exact ih hne (by omega)
  case case4 ih => exact ih hne (by omega)
  case case6 ih => exact ih hne (by omega)
  case case7 hist i hin bin hbin _ _ _ _ _ _ _ _ ih =>
    -- The bins around the erased one stay.
    have hlen := hlt hne hin
    have herased := List.length_eraseIdx_of_lt (l := hist) (i := i) (by omega)
    refine ih ?_ hi
    intro hnil
    rw [hnil, List.length_nil] at herased
    omega
  case case8 hist i _ => exact ⟨hist, rfl, hne⟩
  -- The bins that are read are there.
  case case1 hin hnone => exact absurd hnone (hread (Nat.lt_of_succ_lt (hlt hne hin)))
  case case3 hin _ _ _ _ hnone => exact absurd hnone (hread (hlt hne hin))
  case case5 hin _ _ _ _ _ _ _ hnone => exact absurd hnone (hread (by have := hlt hne hin; omega))

/-- On no bins, the loop reads one. -/
theorem removeSurroundedBins_nil :
    removeSurroundedBins ([] : Histogram K) 1 = .error .undefinedBehaviour := by
  have hin : 1 < sizeSub ([] : Histogram K).length 1 := by simp [sizeSub]
  unfold removeSurroundedBins
  rw [if_pos hin]
  rfl

/-! ## Pruning and merging -/

/-- A bin that is not empty is not pruned. -/
theorem Prunes.mem {hist left removed : Histogram K} (h : Prunes hist left removed) {bin : Bin K}
    (hmem : bin ∈ hist) (hbin : isEmptyBin bin = false) : bin ∈ left := by
  rcases List.mem_append.1 (h.perm.subset hmem) with hl | hr
  · exact hl
  · rw [h.empty bin hr] at hbin
    cases hbin

/-- `remove_empty_bins` stays in bounds where a bin is not empty, and only
there. -/
theorem removeEmptyBins_returns_iff {hist : Histogram K} :
    (∃ left, removeEmptyBins hist = .ok left) ↔ ∃ bin ∈ hist, isEmptyBin bin = false := by
  have hprunes := (prunes_dropWhile hist).trans (prunes_rdropWhile _)
  unfold removeEmptyBins
  constructor
  · intro h
    obtain ⟨left, h⟩ := h
    by_contra hall
    have hempty : ∀ bin ∈ hist, isEmptyBin bin = true := by simpa using hall
    have hdrop : hist.dropWhile isEmptyBin = [] := List.dropWhile_eq_nil_iff.2 hempty
    simp only [hdrop, List.rdropWhile_nil, removeSurroundedBins_nil] at h
    cases h
  · intro h
    obtain ⟨bin, hmem, hbin⟩ := h
    have hne := List.ne_nil_of_mem (hprunes.mem hmem hbin)
    obtain ⟨left, hleft, -⟩ := removeSurroundedBins_total hne le_rfl
    exact ⟨left, hleft⟩

/-! ## The reduction -/

section

variable [IsStrictOrderedRing K]

/-- The merge of a pair stays in bounds of two bins or more. -/
theorem mergeClosest_returns {hist : Histogram K} (hcount : ∀ bin ∈ hist, 0 ≤ bin.count)
    (hlen : 2 ≤ hist.length) : ∃ merged, mergeClosest hist = .ok merged := by
  obtain ⟨left, right, hl, hr, -⟩ := bestMergeIndex_least hlen
  obtain ⟨bin, hbin, -⟩ :=
    mergedBin_spec (hcount left (List.mem_of_getElem? hl)) (hcount right (List.mem_of_getElem? hr))
  simp only [mergeClosest, bind_eq_ok, elementAt_ok]
  exact ⟨_, left, hl, right, hr, bin, hbin, rfl⟩

/-- The reduction stays in bounds where it has nothing to do, or a bin that is
not empty. -/
theorem reduceHistogram_returns_iff {bins : Nat} {hist : Histogram K} (hbins : 1 ≤ bins)
    (hcount : ∀ bin ∈ hist, 0 ≤ bin.count) :
    (∃ reduced, Statistics.reduceHistogram bins hist = .ok reduced) ↔
      hist.length ≤ bins ∨ ∃ bin ∈ hist, isEmptyBin bin = false := by
  constructor
  · intro h
    obtain ⟨reduced, h⟩ := h
    rcases reduceHistogram_ok.1 h with ⟨hlen, -⟩ | ⟨-, pruned, hp, -⟩
    · exact .inl hlen
    · exact .inr (removeEmptyBins_returns_iff.1 ⟨pruned, hp⟩)
  · intro h
    rcases Nat.lt_or_ge bins hist.length with hlen | hlen
    · obtain ⟨pruned, hp⟩ := removeEmptyBins_returns_iff.2 (h.resolve_left (not_le.2 hlen))
      rcases Nat.lt_or_ge bins pruned.length with hlen' | hlen'
      · obtain ⟨removed, hprunes⟩ := removeEmptyBins_ok hp
        obtain ⟨merged, hm⟩ := mergeClosest_returns
          (fun bin hb => hcount bin (hprunes.sublist.subset hb)) (by omega)
        exact ⟨merged, reduceHistogram_ok.2 (.inr ⟨hlen, pruned, hp, .inr ⟨hlen', hm⟩⟩)⟩
      · exact ⟨pruned, reduceHistogram_ok.2 (.inr ⟨hlen, pruned, hp, .inl ⟨hlen', rfl⟩⟩)⟩
    · exact ⟨hist, reduceHistogram_ok.2 (.inl ⟨hlen, rfl⟩)⟩

/-! ## The new bin -/

/-- How far the time has to move on for a datum stamped with the new end to be
empty. -/
theorem keep_self_le_doubleEps {M T t : Int} :
    (keep M T t t : K) ≤ doubleEps ↔ T < t ∧ (2 ^ 50 - 1) * M ≤ t - T := by
  have heps := doubleEps_value (K := K)
  rcases le_or_gt t T with ht | ht
  · have hone : ¬ (1 : K) ≤ doubleEps := by rw [heps]; norm_num
    rw [keep_of_le ht]
    exact iff_of_false hone fun h => absurd h.1 (not_lt.2 ht)
  · rcases le_or_gt M 0 with hM | hM
    · rw [keep_of_expired ht (by omega)]
      exact iff_of_true doubleEps_pos.le ⟨ht, by omega⟩
    · have hpos : (0 : K) < ((M + (t - T) : Int) : K) := Int.cast_pos.2 (by omega)
      have hcast : (M : K) * 2 ^ 50 ≤ ((M + (t - T) : Int) : K) ↔ M * 2 ^ 50 ≤ M + (t - T) := by
        exact_mod_cast Iff.rfl
      rw [keep_self hM ht, heps, div_le_div_iff₀ hpos (by positivity), one_mul, hcast]
      omega

namespace Statistics

variable {pf : Platform K} {config : StatisticsConfig} {st : Statistics K} {calls : List (Call K)}

/-- Some bin is left to prune around exactly when the new one is not empty: when
it is, everything older has left the window. -/
theorem insertAndShift_nonempty_iff (hI : HistogramInv calls st) (hbins : st.config.histogramBins ≠ 0) (v : K)
    (t : Int) :
    (∃ bin ∈ st.insertAndShift pf v t, isEmptyBin bin = false) ↔
      t ≤ st.timestamp ∨ t - st.timestamp < (2 ^ 50 - 1) * st.interval pf := by
  have hpoint := pf.lowerBound_correct _ ⟨v, 1, t⟩ hI.wellFormed.sorted
  have hnew : isEmptyBin (st.fadedBin pf t ⟨v, 1, t⟩) = true ↔
      st.timestamp < t ∧ (2 ^ 50 - 1) * st.interval pf ≤ t - st.timestamp := by
    rw [isEmptyBin_iff, ← keep_self_le_doubleEps (K := K)]
    simp only [fadedBin, one_mul]
    rfl
  have hkept : (t ≤ st.timestamp ∨ t - st.timestamp < (2 ^ 50 - 1) * st.interval pf) ↔
      isEmptyBin (st.fadedBin pf t ⟨v, 1, t⟩) = false := by
    rw [← Bool.not_eq_true, hnew]
    omega
  rw [insertAndShift_eq hbins, hkept]
  constructor
  · intro h
    obtain ⟨bin, hmem, hbin⟩ := h
    obtain ⟨b, hb, rfl⟩ := List.mem_map.1 hmem
    rcases (List.mem_insertIdx hpoint.le_length).1 hb with rfl | hold
    · exact hbin
    · -- A bin from before that is not empty has not left the window.
      by_contra hempty
      rw [Bool.not_eq_false, hnew] at hempty
      have hstamp := hI.wellFormed.stamped b hold
      have hexpired : st.kept pf b.timestamp t = (0 : K) := keep_of_expired hempty.1 (by omega)
      have hzero : (st.fadedBin pf t b).count ≤ doubleEps := by
        simp only [fadedBin, hexpired, mul_zero]
        exact doubleEps_pos.le
      rw [isEmptyBin_iff.2 hzero] at hbin
      cases hbin
  · intro h
    exact ⟨_, List.mem_map_of_mem ((List.mem_insertIdx hpoint.le_length).2 (.inl rfl)), h⟩

/-! ## Calls -/

/-- A value can be taken in at `t`: there is no histogram, some room in it, or
the time does not move on further than a fresh bin stays above the tolerance. -/
def CanTake (pf : Platform K) (st : Statistics K) (t : Int) : Prop :=
  st.computed .histogram = false ∨ st.config.histogramBins = 0 ∨
    st.histogram.length < st.config.histogramBins ∨ t ≤ st.timestamp ∨
    t - st.timestamp < (2 ^ 50 - 1) * st.interval pf

instance (pf : Platform K) (st : Statistics K) (t : Int) : Decidable (CanTake pf st t) :=
  inferInstanceAs (Decidable (_ ∨ _ ∨ _ ∨ _ ∨ t - st.timestamp < _))

/-- The same of a call. -/
def Returns (pf : Platform K) (st : Statistics K) : Call K → Prop
  | .update _ t => st.CanTake pf t
  | .updateTime _ => True

instance (pf : Platform K) (st : Statistics K) : ∀ c, Decidable (Returns pf st c)
  | .update _ t => inferInstanceAs (Decidable (st.CanTake pf t))
  | .updateTime _ => inferInstanceAs (Decidable True)

theorem update_returns_iff (hI : HistogramInv calls st) (v : K) (t : Int) :
    (∃ st', st.update pf v t = .ok st') ↔ st.CanTake pf t := by
  by_cases hno : st.computed .histogram = false ∨ st.config.histogramBins = 0
  · exact iff_of_true ⟨_, update_of_not_histogram hno v t⟩ (hno.imp_right .inl)
  · rw [not_or, Bool.not_eq_false] at hno
    obtain ⟨hcomputed, hbins⟩ := hno
    have hpoint := pf.lowerBound_correct _ ⟨v, 1, t⟩ hI.wellFormed.sorted
    have hlen : (st.insertAndShift pf v t).length = st.histogram.length + 1 := by
      rw [insertAndShift_eq hbins, List.length_map, List.length_insertIdx_of_le_length hpoint.le_length]
    have hcount : ∀ bin ∈ st.insertAndShift pf v t, 0 ≤ bin.count :=
      hI.insertAndShift_count_nonneg hbins v t
    have hreduce := reduceHistogram_returns_iff (Nat.one_le_iff_ne_zero.2 hbins) hcount
    rw [insertAndShift_nonempty_iff hI hbins, hlen, Nat.succ_le_iff] at hreduce
    rw [CanTake, hcomputed, or_iff_right (by simp), or_iff_right hbins, ← hreduce]
    constructor
    · intro h
      obtain ⟨st', h⟩ := h
      obtain ⟨hist, hhist, -⟩ := update_ok.1 h
      rcases update_histogram_cases.1 hhist with ⟨hno | hno, -⟩ | ⟨-, -, hred⟩
      · rw [hcomputed] at hno
        cases hno
      · exact absurd hno hbins
      · exact ⟨hist, hred⟩
    · intro h
      obtain ⟨hist, hred⟩ := h
      exact ⟨_, update_ok.2 ⟨hist, update_histogram_cases.2 (.inr ⟨hcomputed, hbins, hred⟩), rfl⟩⟩

theorem step_returns_iff (hI : HistogramInv calls st) (c : Call K) :
    (∃ st', step pf st c = .ok st') ↔ Returns pf st c := by
  cases c with
  | updateTime t => exact iff_of_true ⟨_, rfl⟩ trivial
  | update v t => exact update_returns_iff hI v t

/-- **Which runs return**: those whose calls all do. -/
theorem run_returns_iff (h : Reachable pf config st) (calls : List (Call K)) :
    (∃ st', run (step pf) st calls = .ok st') ↔ Throughout (step pf) st calls fun _ => Returns pf := by
  refine exists_run_iff (I := Reachable pf config) (fun _ _ _ hreach hs => hreach.step hs) ?_ h
  intro st c hreach
  obtain ⟨pre, hpre⟩ := hreach
  exact step_returns_iff hpre.histogramInv c

/-! ## Runs -/

/-- The call leaves the histogram as it is, or some room in it, or does not move
the time on further than a fresh bin stays above the tolerance. -/
def InBounds (pf : Platform K) (st : Statistics K) : Call K → Prop
  | .update _ t =>
    st.computed .histogram = false ∨ st.histogram.length < st.config.histogramBins ∨
      t - st.timestamp < (2 ^ 50 - 1) * st.interval pf
  | .updateTime _ => True

instance (pf : Platform K) (st : Statistics K) : ∀ c, Decidable (InBounds pf st c)
  | .update _ t => inferInstanceAs (Decidable (_ ∨ _ ∨ t - st.timestamp < _))
  | .updateTime _ => inferInstanceAs (Decidable True)

omit [Field K] [IsStrictOrderedRing K] in
/-- Where the options are the usual ones, a time that does not move on is a case
of one that does not move on far. -/
theorem returns_iff_inBounds (hM : 0 < st.interval pf) (hbins : 1 ≤ st.config.histogramBins) (c : Call K) :
    Returns pf st c ↔ InBounds pf st c := by
  cases c with
  | updateTime t => rfl
  | update v t =>
    have hne : ¬ st.config.histogramBins = 0 := by omega
    have hnear : t ≤ st.timestamp → t - st.timestamp < (2 ^ 50 - 1) * st.interval pf := by omega
    rw [Returns, CanTake, InBounds, or_iff_right hne, or_iff_right_of_imp hnear]

/-- **Where the maintenance stays in bounds.** A run returns exactly when each
of its `update`s leaves the histogram a bin that is not empty, or room; a run
that does not return has read a bin that does not exist, and has not thrown. -/
theorem histogram_in_bounds_iff (hM : 0 < pf.clock.count config.movingInterval)
    (hbins : 1 ≤ config.histogramBins) (calls : List (Call K)) :
    ((∃ st, RunsTo pf config calls st) ↔
      Throughout (step pf) (initial config) calls fun _ => InBounds pf) ∧
    ∀ f, run (step pf) (initial config) calls = .error f → f = .undefinedBehaviour := by
  have hstart : Reachable pf config (initial config : Statistics K) := ⟨[], rfl⟩
  have hstep : ∀ (st : Statistics K) c, Reachable pf config st →
      ((∃ st', step pf st c = .ok st') ↔ InBounds pf st c) := by
    intro st c hreach
    have hM' : 0 < st.interval pf := by rwa [hreach.interval_eq]
    have hbins' : 1 ≤ st.config.histogramBins := by rwa [hreach.config_eq]
    obtain ⟨pre, hpre⟩ := hreach
    exact (step_returns_iff hpre.histogramInv c).trans (returns_iff_inBounds hM' hbins' c)
  have hends : ∀ (st : Statistics K) c, Reachable pf config st →
      Ends (Reachable pf config) NotThrown (step pf st c) := by
    intro st c hreach
    cases c with
    | update v t => exact hreach.update_ends v t
    | updateTime t => exact hreach.step (c := .updateTime t) rfl
  refine ⟨exists_run_iff (fun _ _ _ hreach hs => hreach.step hs) hstep hstart, fun f hf => ?_⟩
  have hthrown : NotThrown f := (run_ends hends calls hstart).of_error hf
  cases f with
  | undefinedBehaviour => rfl
  | _ => cases hthrown

theorem histogram_in_bounds_sample :
    ∃ st, RunsTo (.inUnit .nsec) (sampleConfig 2 Tag.histogram.bit)
      [.update (3 : ℚ) 0, .update 5 400, .update 4 900, .updateTime 5000, .update 7 6000] st :=
  (histogram_in_bounds_iff (by decide) (by decide) _).1.2 (throughout_of_meets (by decide +kernel))

/-- A window of a nanosecond and one bin: after `2^50` nanoseconds the new bin
is as empty as the old one, and `remove_empty_bins` reads a bin of none. -/
theorem histogram_out_of_bounds :
    run (step (.inUnit .nsec)) (initial ⟨⟨1, .nsec⟩, 1, Tag.histogram.bit, .sec⟩)
      [.update (0 : ℚ) 0, .update 1 (2 ^ 50)] = .error .undefinedBehaviour := by
  decide +kernel

end Statistics

end

end Handystats
