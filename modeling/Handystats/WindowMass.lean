/-
The two estimators of what is in the window: the histogram's total and
`moving_count`.

`moving_count` fades by the one stamp `m_data_timestamp`, each bin by its own.
No bin is stamped later than that, newer data keep more (`keep_mono`), and what
the histogram discards is not negative: so the histogram never holds more than
`moving_count`, as long as every value is let in by both.
-/
import Handystats.HistogramWeight

namespace Handystats.Statistics

open Runs Fading

variable {K : Type} [Field K] [LinearOrder K] [IsStrictOrderedRing K]
variable {pf : Platform K} {config : StatisticsConfig} {st st' : Statistics K} {calls : List (Call K)}

/-! ## The total -/

/-- Bins that are stamped `D` at the latest fade at least as data stamped `D`
do. -/
theorem total_faded_le {vs : List K} {D : Int} {hist : Histogram K} (h : WellFormed vs D hist) (t : Int) :
    Histogram.total (hist.map (st.fadedBin pf t)) ≤ hist.total * st.kept pf D t := by
  have hle : ∀ bin ∈ hist, (st.fadedBin pf t bin).count ≤ bin.count * st.kept pf D t := by
    intro bin hbin
    exact mul_le_mul_of_nonneg_left (keep_mono (h.stamped bin hbin)) (h.count_nonneg bin hbin)
  calc Histogram.total (hist.map (st.fadedBin pf t))
      = (hist.map fun bin => (st.fadedBin pf t bin).count).sum := by
        rw [Histogram.total, List.map_map]; rfl
    _ ≤ (hist.map fun bin => bin.count * st.kept pf D t).sum := List.sum_le_sum hle
    _ = hist.total * st.kept pf D t := List.sum_map_mul_right ..

/-- What `update` leaves: not more than the share of the new value and the old
bins faded as one. -/
theorem update_total_le (htag : st.computed .histogram = true) (hbins : st.config.histogramBins ≠ 0)
    (hI : HistogramInv calls st) {vs : List K} {D : Int} (hw : WellFormed vs D st.histogram) {v : K}
    {t : Int} (h : st.update pf v t = .ok st') :
    st'.histogram.total ≤ 1 + st.histogram.total * st.kept pf D t := by
  obtain ⟨removed, hd, -, htotal⟩ := update_total htag hbins hI h
  have hremoved : 0 ≤ Histogram.total removed :=
    Histogram.total_nonneg fun bin hb => hI.insertAndShift_count_nonneg hbins v t bin (discardedBins_subset hd hb)
  have hkept : st.kept pf D (max t st.timestamp) = st.kept pf D t := by
    rcases le_total t st.timestamp with ht | ht
    · rw [max_eq_right ht, kept, kept, keep_of_le ht, keep_of_le le_rfl]
    · rw [max_eq_left ht]
  have hfaded : Histogram.total (st.histogram.map (st.fadedBin pf (max t st.timestamp))) ≤
      st.histogram.total * st.kept pf D (max t st.timestamp) := total_faded_le hw _
  rw [hkept, ← shiftHistogram_eq hbins] at hfaded
  have hone : st.kept pf t t ≤ 1 := kept_le_one t t
  linarith

/-! ## The invariant -/

/-- The bins are well formed at the time of the data, and their total is at
most `moving_count`. -/
structure Dominated (calls : List (Call K)) (st : Statistics K) : Prop where
  histogramInv : HistogramInv calls st
  data_nonneg : 0 ≤ st.dataTimestamp
  wellFormed : WellFormed (Call.values calls) st.dataTimestamp st.histogram
  total_le : st.histogram.total ≤ st.movingCount

/-- The value of the call is not older than the window. -/
def Recent (pf : Platform K) (st : Statistics K) : Call K → Prop
  | .update _ t => st.timestamp - st.interval pf ≤ t
  | .updateTime _ => True

omit [IsStrictOrderedRing K] in
theorem dominated_initial (config : StatisticsConfig) :
    Dominated [] (initial config : Statistics K) :=
  ⟨histogramInv_initial config, le_rfl, WellFormed.nil, le_rfl⟩

section Step

variable (hc : st.computed .movingCount = true) (hhist : st.computed .histogram = true)
variable (hbins : st.config.histogramBins ≠ 0)

include hc hhist hbins in
theorem Dominated.updateTime (h : Dominated calls st) (t : Int) :
    Dominated (calls ++ [.updateTime t]) (st.updateTime pf t) := by
  have hstep : step pf st (.updateTime t) = .ok (st.updateTime pf t) := rfl
  refine ⟨step_histogramInv h.histogramInv hstep, ?_, ?_, ?_⟩
  · rw [updateTime_dataTimestamp]
    exact h.data_nonneg
  · rw [updateTime_dataTimestamp, updateTime_histogram, if_pos ⟨hhist, hbins⟩,
      Call.values_concat_updateTime]
    exact wellFormed_faded h.wellFormed t
  · rw [updateTime_histogram, if_pos ⟨hhist, hbins⟩, updateTime_movingCount, if_pos hc]
    have hkept : 0 ≤ st.kept pf st.dataTimestamp t := kept_nonneg pf st _ t
    exact (total_faded_le h.wellFormed t).trans (mul_le_mul_of_nonneg_right h.total_le hkept)

include hc hhist hbins in
/-- A value that is let in counts 1 in `moving_count`, and at most 1 in the
histogram. -/
theorem Dominated.update (hM : 0 < st.interval pf) (h : Dominated calls st) {v : K} {t : Int}
    (hrecent : st.timestamp - st.interval pf ≤ t) (hs : st.update pf v t = .ok st') :
    Dominated (calls ++ [.update v t]) st' := by
  have htotal := update_total_le hhist hbins h.histogramInv h.wellFormed hs
  have hstep : step pf st (.update v t) = .ok st' := hs
  have hinv := step_histogramInv h.histogramInv hstep
  obtain ⟨hist, hhist', rfl⟩ := update_ok.1 hs
  have hts : st.computed .timestamp = true := StatisticsConfig.computed_timestamp hhist (by simp)
  have hD : (st.updated pf v t hist).dataTimestamp = max st.dataTimestamp t := if_pos hts
  have hD0 : 0 ≤ max st.dataTimestamp t := h.data_nonneg.trans (le_max_left _ _)
  refine ⟨hinv, by rwa [hD], ?_, ?_⟩
  · rw [hD]
    rcases update_histogram_cases.1 hhist' with ⟨hno, -⟩ | ⟨-, -, hreduced⟩
    · simp [hhist, hbins] at hno
    rw [insertAndShift_eq hbins] at hreduced
    have hw : WellFormed (Call.values (calls ++ [.update v t])) (max st.dataTimestamp t) st.histogram :=
      h.wellFormed.mono (le_max_left _ _) (by simp +contextual)
    have hpoint := pf.lowerBound_correct _ ⟨v, 1, t⟩ hw.sorted
    have hins := hw.insertIdx hpoint zero_le_one (le_max_right _ _) (.of_mem (by simp))
    exact (wellFormed_faded hins t).reduceHistogram hD0 hreduced
  · have hw : st.entryWeight pf t = 1 := if_neg (not_lt.2 hrecent)
    have hcount : (st.updated pf v t hist).movingCount =
        st.movingCount * st.kept pf st.dataTimestamp t + 1 := by
      simp only [updated]
      rw [if_pos hc, updateIntervalData_weighted hM, hw, one_mul]
    have hkept : 0 ≤ st.kept pf st.dataTimestamp t := kept_nonneg pf st _ t
    have hfaded := mul_le_mul_of_nonneg_right h.total_le hkept
    rw [hcount]
    linarith

end Step

theorem RunsTo.dominated (hM : 0 < pf.clock.count config.movingInterval)
    (hc : config.computed .movingCount = true) (hhist : config.computed .histogram = true)
    (hbins : 1 ≤ config.histogramBins) (h : RunsTo pf config calls st)
    (hrecent : Throughout (step pf) (initial config) calls fun _ => Recent pf) : Dominated calls st := by
  have hinv := run_inv_throughout (I := fun calls st => st.config = config ∧ Dominated calls st) ?_
    ⟨rfl, dominated_initial config⟩ h hrecent
  · exact hinv.2
  · intro calls s c s' ⟨hcfg, hI⟩ hrec hs
    refine ⟨(step_config hs).trans hcfg, ?_⟩
    have hc' : s.computed .movingCount = true := by rwa [computed, hcfg]
    have hhist' : s.computed .histogram = true := by rwa [computed, hcfg]
    have hbins' : s.config.histogramBins ≠ 0 := by rw [hcfg]; omega
    cases c with
    | update v t => exact hI.update hc' hhist' hbins' (by rw [interval, hcfg]; exact hM) hrec hs
    | updateTime t =>
      simp only [step, Except.ok.injEq] at hs
      subst hs
      exact hI.updateTime hc' hhist' hbins' t

/-- **The histogram's mass never exceeds `moving_count`**, after every run in
which no value is older than the window when it is passed. -/
theorem histogram_mass_le_moving_count (hM : 0 < pf.clock.count config.movingInterval)
    (hc : config.computed .movingCount = true) (hhist : config.computed .histogram = true)
    (hbins : 1 ≤ config.histogramBins) (h : RunsTo pf config calls st)
    (hrecent : Throughout (step pf) (initial config) calls fun _ => Recent pf) :
    st.histogram.total ≤ st.movingCount :=
  (h.dominated hM hc hhist hbins hrecent).total_le

theorem histogram_mass_le_moving_count_sample :
    ∃ st : Statistics ℚ,
      RunsTo (.inUnit .nsec) (sampleConfig 1 (Tag.movingCount.bit ||| Tag.histogram.bit))
        [.updateTime 300, .update 3 200, .update 5 400, .updateTime 900] st ∧
      st.histogram.total ≤ st.movingCount := by
  obtain ⟨st, h⟩ := exists_ok_of_toBool (x := run (step (.inUnit .nsec))
    (initial (sampleConfig 1 (Tag.movingCount.bit ||| Tag.histogram.bit)))
    [.updateTime 300, .update (3 : ℚ) 200, .update 5 400, .updateTime 900]) (by decide +kernel)
  refine ⟨st, h, histogram_mass_le_moving_count (by decide +kernel) (by decide +kernel)
    (by decide +kernel) (by decide) h ?_⟩
  refine throughout_cons trivial fun m₁ h₁ => throughout_cons ?_ fun m₂ h₂ =>
    throughout_cons ?_ fun _ _ => throughout_cons trivial fun _ _ => throughout_nil
  all_goals obtain rfl := Except.ok.inj h₁
  · change (_ : Int) - _ ≤ 200
    decide +kernel
  · obtain ⟨hist, -, rfl⟩ := update_ok.1 h₂
    change (_ : Int) - _ ≤ 400
    rw [updated_interval, updated_timestamp]
    decide +kernel

end Handystats.Statistics
