/-
The interval statistics `moving_count`, `moving_sum` and `moving_avg`.

One call fades all interval data by one share and lets the new value in with
weight 1, or 0 when it is older than the window. So the interval data are a
weighted sum of the values passed so far, with weights in `[0, 1]` common to
all of them (`Weighted`).
-/
import Handystats.Library.Weighting
import Handystats.StatisticsRun

namespace Handystats.Statistics

open Runs Fading Weighting MathUtils

variable {K : Type} [Field K] [LinearOrder K] [IsStrictOrderedRing K]
variable {pf : Platform K} {config : StatisticsConfig} {st st' : Statistics K}

omit [IsStrictOrderedRing K] in
/-- A call keeps the configuration. -/
theorem step_config {c : Call K} (h : step pf st c = .ok st') : st'.config = st.config := by
  cases c with
  | update v t =>
    obtain ⟨_, -, rfl⟩ := update_ok.1 h
    rfl
  | updateTime t =>
    simp only [step, updateTime_eq, Except.ok.injEq] at h
    subst h; rfl

omit [IsStrictOrderedRing K] in
theorem Reachable.config_eq (h : Reachable pf config st) : st.config = config :=
  h.inv (I := fun st => st.config = config) rfl fun _ _ _ hI hs => (step_config hs).trans hI

omit [IsStrictOrderedRing K] in
theorem Reachable.interval_eq (h : Reachable pf config st) :
    st.interval pf = pf.clock.count config.movingInterval := by
  rw [interval, h.config_eq]

theorem kept_nonneg (pf : Platform K) (st : Statistics K) (D t : Int) : 0 ≤ st.kept pf D t := keep_nonneg _ _ _ _

theorem kept_le_one (D t : Int) : st.kept pf D t ≤ 1 := keep_le_one _ _ _ _

/-- The weight with which `update` lets in a value stamped `t`. -/
def entryWeight (pf : Platform K) (st : Statistics K) (t : Int) : K :=
  if t < st.timestamp - st.interval pf then 0 else 1

theorem entryWeight_nonneg (t : Int) : 0 ≤ st.entryWeight pf t := by
  unfold entryWeight; split_ifs <;> simp

theorem entryWeight_le_one (t : Int) : st.entryWeight pf t ≤ 1 := by
  unfold entryWeight; split_ifs <;> simp

omit [IsStrictOrderedRing K] in
/-- Interval data after `update`, as a weighted sum. -/
theorem updateIntervalData_weighted (hM : 0 < st.interval pf) (data : K) (D : Int) (value : K)
    (t : Int) :
    st.updateIntervalData pf data D value t =
      data * st.kept pf D t + st.entryWeight pf t * value := by
  rw [updateIntervalData_eq hM, kept, entryWeight]
  split_ifs <;> simp

/-- The interval data are sums over the values with common weights. -/
structure Weighted (calls : List (Call K)) (st : Statistics K) (ws : List K) : Prop where
  weights : IsWeighting ws (Call.values calls)
  count : st.movingCount = ws.sum
  sum : st.movingSum = dot ws (Call.values calls)

/-- One call: the weights are scaled, and the new value gets its own. -/
theorem step_weighted (hM : 0 < st.interval pf) (hc : st.computed .movingCount = true)
    (hs : st.computed .movingSum = true) {calls : List (Call K)} {ws : List K}
    (hw : Weighted calls st ws) {c : Call K} (h : step pf st c = .ok st') :
    ∃ ws', Weighted (calls ++ [c]) st' ws' := by
  obtain ⟨hws, hcount, hsum⟩ := hw
  cases c with
  | update v t =>
    obtain ⟨hist, -, rfl⟩ := update_ok.1 h
    have hscaled := hws.scale (kept_nonneg pf st st.dataTimestamp t) (kept_le_one _ t)
    refine ⟨ws.map (· * st.kept pf st.dataTimestamp t) ++ [st.entryWeight pf t], ?_, ?_, ?_⟩
    · rw [Call.values_concat_update]
      exact hscaled.concat (entryWeight_nonneg t) (entryWeight_le_one t) v
    · simp only [updated, hc, if_true, updateIntervalData_weighted hM, hcount, mul_one]
      rw [List.sum_append, List.sum_map_mul_right, List.map_id', List.sum_singleton]
    · simp only [updated, hs, if_true, updateIntervalData_weighted hM, hsum]
      rw [Call.values_concat_update, dot_concat hscaled.length, dot_scale]
  | updateTime t =>
    simp only [step, updateTime_eq, Except.ok.injEq] at h
    subst h
    refine ⟨ws.map (· * st.kept pf st.dataTimestamp t), ?_, ?_, ?_⟩
    · rw [Call.values_concat_updateTime]
      exact hws.scale (kept_nonneg _ _ _ _) (kept_le_one _ _)
    · simp only [hc, if_true, hcount]
      rw [List.sum_map_mul_right, List.map_id']
    · simp only [hs, if_true, hsum]
      rw [Call.values_concat_updateTime, dot_scale]

/-- Weights of every run. -/
theorem RunsTo.weighted (hM : 0 < pf.clock.count config.movingInterval)
    (htag : config.enabled .movingAvg = true) {calls : List (Call K)}
    (h : RunsTo pf config calls st) : ∃ ws, Weighted calls st ws := by
  have hinv := run_inv (I := fun calls st => st.config = config ∧ ∃ ws, Weighted calls st ws) ?_
    ⟨rfl, [], ⟨IsWeighting.nil, by simp [initial], by simp [initial, Call.values]⟩⟩ h
  · exact hinv.2
  · rintro calls s c s' ⟨hcfg, ws, hw⟩ hs
    refine ⟨(step_config hs).trans hcfg, ?_⟩
    refine step_weighted (by rw [interval, hcfg]; exact hM) ?_ ?_ hw hs <;>
      simp [computed, hcfg, htag]

/-- **Interval statistics are a common weighting of the data.** There are
weights in `[0, 1]`, one for each value passed to `update`, of which
`moving_count` is the sum and with which `moving_sum` weighs the values;
`shift_interval_data` divides by positive numbers only; so `moving_count` is
at most the number of updates, and `moving_avg`, once `moving_count` is above
the tolerance, lies between the smallest and the largest value. -/
theorem moving_statistics_weighted (hM : 0 < pf.clock.count config.movingInterval)
    (htag : config.enabled .movingAvg = true) {calls : List (Call K)}
    (h : RunsTo pf config calls st) :
    (∃ ws, IsWeighting ws (Call.values calls) ∧ st.movingCount = ws.sum ∧
      st.movingSum = dot ws (Call.values calls)) ∧
    (∀ dataTimestamp timestamp, ¬ timestamp ≤ st.timestamp →
      ¬ st.staleInterval pf dataTimestamp timestamp ≤ 0 → 0 < st.shiftDenominator pf dataTimestamp) ∧
    0 ≤ st.movingCount ∧ st.movingCount ≤ (Call.values calls).length ∧
    (doubleEps < st.movingCount →
      ∃ avg, st.getMovingAvg = .ok avg ∧ Between (Call.values calls) avg) := by
  obtain ⟨ws, hw, hcount, hsum⟩ := h.weighted hM htag
  refine ⟨⟨ws, hw, hcount, hsum⟩, fun D t ht hstale => ?_, ?_, ?_, fun hpos => ?_⟩
  · unfold staleInterval at hstale
    exact denominator_pos (not_le.1 ht) (not_le.1 hstale)
  · rw [hcount]; exact hw.sum_nonneg
  · rw [hcount]; exact hw.sum_le
  · refine ⟨st.movingSum / st.movingCount, ?_, ?_⟩
    · have hcomp : st.computed .movingAvg = true := by
        simp [computed, h.reachable.config_eq, htag]
      have hcmp : ¬ cmp doubleEps st.movingCount 0 ≤ 0 := by
        rw [cmp_nonpos doubleEps_pos]; linarith
      simp [getMovingAvg, get, hcomp, hcmp]
    · rw [hsum, hcount] at *
      exact hw.average_between (doubleEps_pos.trans hpos)

theorem moving_statistics_weighted_sample :
    ∃ st : Statistics ℚ,
      RunsTo (.inUnit .nsec) (sampleConfig 2 Tag.movingAvg.bit)
        [.update 3 0, .update (-5) 400, .updateTime 900, .update 7 500] st ∧
      ∃ ws, IsWeighting ws [3, -5, 7] ∧ st.movingCount = ws.sum ∧ st.movingSum = dot ws [3, -5, 7] := by
  obtain ⟨st, h⟩ := exists_runsTo (K := ℚ) (.inUnit .nsec)
    (show (sampleConfig 2 Tag.movingAvg.bit).computed .histogram = false by decide +kernel)
    [.update 3 0, .update (-5) 400, .updateTime 900, .update 7 500]
  exact ⟨st, h, (moving_statistics_weighted (by decide +kernel) (by decide +kernel) h).1⟩

end Handystats.Statistics
