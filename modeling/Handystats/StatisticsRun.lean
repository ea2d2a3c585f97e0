/-
Runs of a `statistics` object: any calls of `update` and `update_time`, from
a reset object on, and what one call does to each field.

`shiftIntervalData_eq` and `updateIntervalData_eq` put the source's formulas
in terms of `Fading.keep`. `update_ok` and `update_histogram_cases` say once
what `update` does, `updateTime_eq` what `update_time` does; no later proof
opens them.
-/
import Handystats.StatisticsGet

namespace Handystats

variable {K : Type}

/-- A call that feeds a statistics object. -/
inductive Call (K : Type) where
  | update (value : K) (timestamp : Int)
  | updateTime (timestamp : Int)

/-- The time a call is made for. -/
def Call.timestamp : Call K → Int
  | .update _ t => t
  | .updateTime t => t

/-- The values passed to `update`, in order. -/
def Call.values (calls : List (Call K)) : List K :=
  calls.filterMap fun
    | .update v _ => some v
    | .updateTime _ => none

@[simp] theorem Call.values_concat_update (calls : List (Call K)) (v : K) (t : Int) :
    Call.values (calls ++ [.update v t]) = Call.values calls ++ [v] := by
  simp [Call.values]

@[simp] theorem Call.values_concat_updateTime (calls : List (Call K)) (t : Int) :
    Call.values (calls ++ [.updateTime t]) = Call.values calls := by
  simp [Call.values]

namespace Statistics

open Runs Fading

variable [Field K] [LinearOrder K] {pf : Platform K} {st st' : Statistics K}

/-- One call. -/
def step (pf : Platform K) (st : Statistics K) : Call K → Except Fault (Statistics K)
  | .update v t => st.update pf v t
  | .updateTime t => .ok (st.updateTime pf t)

/-- `st` is what the calls make of a reset object. -/
def RunsTo (pf : Platform K) (config : StatisticsConfig) (calls : List (Call K))
    (st : Statistics K) : Prop :=
  run (step pf) (initial config) calls = .ok st

/-- Some calls lead from a reset object to `st`. -/
def Reachable (pf : Platform K) (config : StatisticsConfig) (st : Statistics K) : Prop :=
  ∃ calls, RunsTo pf config calls st

theorem RunsTo.reachable {config : StatisticsConfig} {calls : List (Call K)}
    (h : RunsTo pf config calls st) : Reachable pf config st := ⟨calls, h⟩

theorem Reachable.step {config : StatisticsConfig} {c : Call K} (h : Reachable pf config st)
    (hs : Statistics.step pf st c = .ok st') : Reachable pf config st' := by
  obtain ⟨calls, hr⟩ := h
  exact ⟨calls ++ [c], run_append_ok.2 ⟨st, hr, run_singleton_ok.2 hs⟩⟩

/-- **Invariants of reachable objects.** -/
theorem Reachable.inv {config : StatisticsConfig} {I : Statistics K → Prop}
    (h₀ : I (initial config))
    (hstep : ∀ st c st', I st → Statistics.step pf st c = .ok st' → I st') (h : Reachable pf config st) :
    I st := by
  obtain ⟨calls, hr⟩ := h
  exact run_inv (I := fun _ => I) (fun _ s c s' => hstep s c s') h₀ hr

/-! ## The formulas -/

theorem shiftIntervalData_eq (data : K) (dataTimestamp timestamp : Int) :
    st.shiftIntervalData pf data dataTimestamp timestamp =
      data * keep (st.interval pf) st.timestamp dataTimestamp timestamp := by
  unfold shiftIntervalData keep staleInterval shiftDenominator
  split_ifs
  · rw [mul_one]
  · rw [mul_zero]
  · rw [mul_div_assoc]

/-- With a positive interval: the old data faded, and the value unless it is
older than the window. -/
theorem updateIntervalData_eq (hM : 0 < st.interval pf) (data : K) (dataTimestamp : Int) (value : K)
    (timestamp : Int) :
    st.updateIntervalData pf data dataTimestamp value timestamp =
      data * keep (st.interval pf) st.timestamp dataTimestamp timestamp +
        (if timestamp < st.timestamp - st.interval pf then 0 else value) := by
  unfold updateIntervalData
  split_ifs with h₁ h₂ h₂
  · rw [keep_of_le h₁, mul_one, add_zero]
  · rw [keep_of_le h₁, mul_one]
  · omega
  · rw [shiftIntervalData_eq, add_comm]

/-! ## Calls -/

theorem update_ok {value : K} {timestamp : Int} :
    st.update pf value timestamp = .ok st' ↔
      ∃ h, (if st.computed .histogram then st.updateHistogram pf value timestamp
        else .ok st.histogram) = .ok h ∧ st.updated pf value timestamp h = st' := by
  simp only [update, bind_eq_ok, Except.ok.injEq]

theorem updated_timestamp (v : K) (t : Int) (hist : Histogram K) :
    (st.updated pf v t hist).timestamp =
      if st.computed .timestamp then max st.timestamp t else st.timestamp := rfl

theorem updated_dataTimestamp (v : K) (t : Int) (hist : Histogram K) :
    (st.updated pf v t hist).dataTimestamp =
      if st.computed .timestamp then max st.dataTimestamp t else st.dataTimestamp := rfl

theorem updated_interval (v : K) (t : Int) (hist : Histogram K) :
    (st.updated pf v t hist).interval pf = st.interval pf := rfl

/-- What stays of a datum with the stamp `dataTimestamp` when the time moves
on to `timestamp`. -/
def kept (pf : Platform K) (st : Statistics K) (dataTimestamp timestamp : Int) : K :=
  keep (st.interval pf) st.timestamp dataTimestamp timestamp

/-- A bin when the time has moved on to `timestamp`. -/
def fadedBin (pf : Platform K) (st : Statistics K) (timestamp : Int) (bin : Bin K) : Bin K :=
  { bin with count := bin.count * st.kept pf bin.timestamp timestamp }

theorem shiftHistogram_eq (h : st.config.histogramBins ≠ 0) (timestamp : Int) :
    st.shiftHistogram pf timestamp = st.histogram.map (st.fadedBin pf timestamp) := by
  simp only [shiftHistogram, if_neg h, shiftIntervalData_eq]
  rfl

theorem fadedBin_of_le {timestamp : Int} (h : timestamp ≤ st.timestamp) (bin : Bin K) :
    st.fadedBin pf timestamp bin = bin := by
  simp [fadedBin, kept, keep_of_le h]

theorem updateTime_of_le {timestamp : Int} (h : timestamp ≤ st.timestamp) :
    st.updateTime pf timestamp = st := by
  unfold updateTime; rw [if_pos h]

/-- The inserted bin, and all of them faded. -/
theorem insertAndShift_eq (h : st.config.histogramBins ≠ 0) (v : K) (t : Int) :
    st.insertAndShift pf v t =
      (st.histogram.insertIdx (pf.lowerBound st.histogram ⟨v, 1, t⟩) ⟨v, 1, t⟩).map
        (st.fadedBin pf t) := by
  let inserted : Statistics K :=
    { st with histogram := st.histogram.insertIdx (pf.lowerBound st.histogram ⟨v, 1, t⟩) ⟨v, 1, t⟩ }
  have hbins : inserted.config.histogramBins ≠ 0 := h
  exact shiftHistogram_eq hbins t

/-- `update` leaves the histogram alone, or inserts a bin and reduces what
there is then. -/
theorem update_histogram_cases {v : K} {t : Int} {hist : Histogram K} :
    (if st.computed .histogram then st.updateHistogram pf v t else .ok st.histogram) = .ok hist ↔
      ((st.computed .histogram = false ∨ st.config.histogramBins = 0) ∧ hist = st.histogram) ∨
      (st.computed .histogram = true ∧ st.config.histogramBins ≠ 0 ∧
        reduceHistogram st.config.histogramBins (st.insertAndShift pf v t) = .ok hist) := by
  cases hc : st.computed .histogram with
  | false => simp [eq_comm]
  | true =>
    by_cases hbins : st.config.histogramBins = 0
    · simp [updateHistogram, hbins, eq_comm]
    · simp [updateHistogram, hbins]

/-- `update_time` without its early return, which changes nothing. -/
theorem updateTime_eq (timestamp : Int) :
    st.updateTime pf timestamp =
      { st with
        rate := if st.computed .rate then st.rate * st.kept pf st.dataTimestamp timestamp
          else st.rate
        movingCount := if st.computed .movingCount then
          st.movingCount * st.kept pf st.dataTimestamp timestamp else st.movingCount
        movingSum := if st.computed .movingSum then
          st.movingSum * st.kept pf st.dataTimestamp timestamp else st.movingSum
        histogram := if st.computed .histogram then st.shiftHistogram pf timestamp
          else st.histogram
        timestamp := if st.computed .timestamp then max st.timestamp timestamp
          else st.timestamp } := by
  by_cases h : timestamp ≤ st.timestamp
  · have hh : st.shiftHistogram pf timestamp = st.histogram := by
      unfold shiftHistogram
      split_ifs
      · rfl
      · simp [shiftIntervalData_eq, keep_of_le h]
    rw [updateTime_of_le h]
    simp only [kept, keep_of_le h, mul_one, hh, max_eq_left h, ite_self]
  · unfold updateTime
    rw [if_neg h]
    simp only [shiftIntervalData_eq, kept]

section UpdateTime

variable (t : Int)

@[simp] theorem updateTime_config : (st.updateTime pf t).config = st.config := by
  rw [updateTime_eq]

@[simp] theorem updateTime_computed (tag : Tag) :
    (st.updateTime pf t).computed tag = st.computed tag := by
  simp [computed]

@[simp] theorem updateTime_interval : (st.updateTime pf t).interval pf = st.interval pf := by
  simp [interval]

@[simp] theorem updateTime_value : (st.updateTime pf t).value = st.value := by rw [updateTime_eq]

@[simp] theorem updateTime_dataTimestamp :
    (st.updateTime pf t).dataTimestamp = st.dataTimestamp := by
  rw [updateTime_eq]

theorem updateTime_rate : (st.updateTime pf t).rate =
    if st.computed .rate then st.rate * st.kept pf st.dataTimestamp t else st.rate := by
  rw [updateTime_eq]

theorem updateTime_movingCount : (st.updateTime pf t).movingCount =
    if st.computed .movingCount then st.movingCount * st.kept pf st.dataTimestamp t
    else st.movingCount := by
  rw [updateTime_eq]

theorem updateTime_movingSum : (st.updateTime pf t).movingSum =
    if st.computed .movingSum then st.movingSum * st.kept pf st.dataTimestamp t
    else st.movingSum := by
  rw [updateTime_eq]

theorem updateTime_timestamp : (st.updateTime pf t).timestamp =
    if st.computed .timestamp then max st.timestamp t else st.timestamp := by
  rw [updateTime_eq]

theorem updateTime_histogram : (st.updateTime pf t).histogram =
    if st.computed .histogram ∧ st.config.histogramBins ≠ 0 then
      st.histogram.map (st.fadedBin pf t)
    else st.histogram := by
  rw [updateTime_eq]
  by_cases hbins : st.config.histogramBins = 0
  · simp [hbins, shiftHistogram]
  · simp [hbins, shiftHistogram_eq hbins]

end UpdateTime

omit [Field K] [LinearOrder K] in
/-- Without the timestamp, nothing that fades is computed. -/
theorem not_computed_of_not_timestamp (h : st.computed .timestamp = false) (tag : Tag)
    (ht : tag = .movingCount ∨ tag = .movingSum ∨ tag = .movingAvg ∨ tag = .histogram ∨
      tag = .quantile ∨ tag = .rate) : st.computed tag = false := by
  by_contra hc
  rw [Bool.not_eq_false] at hc
  have := StatisticsConfig.computed_timestamp hc ht
  simp [computed, this] at h

theorem updateTime_of_not_timestamp (h : st.computed .timestamp = false) (t : Int) :
    st.updateTime pf t = st := by
  rw [updateTime_eq, h, not_computed_of_not_timestamp h .rate (by simp),
    not_computed_of_not_timestamp h .movingCount (by simp),
    not_computed_of_not_timestamp h .movingSum (by simp),
    not_computed_of_not_timestamp h .histogram (by simp)]
  rfl

/-! ## Runs that cannot fault -/

/-- Without a histogram to maintain, `update` returns, and leaves what
histogram there is. -/
theorem update_of_not_histogram
    (h : st.computed .histogram = false ∨ st.config.histogramBins = 0) (v : K) (t : Int) :
    st.update pf v t = .ok (st.updated pf v t st.histogram) :=
  update_ok.2 ⟨_, update_histogram_cases.2 (.inl ⟨h, rfl⟩), rfl⟩

theorem exists_runsTo {config : StatisticsConfig} (pf : Platform K)
    (h : config.computed .histogram = false) (calls : List (Call K)) :
    ∃ st, RunsTo pf config calls st := by
  have hstep : ∀ (st : Statistics K) c, st.config.computed .histogram = false →
      ∃ st', step pf st c = .ok st' ∧ st'.config.computed .histogram = false := by
    intro st c hI
    cases c with
    | update v t => exact ⟨_, update_of_not_histogram (.inl hI) v t, hI⟩
    | updateTime t => exact ⟨_, rfl, by rw [updateTime_eq]; exact hI⟩
  obtain ⟨st, hr, -⟩ := run_total hstep calls (s := initial config) h
  exact ⟨st, hr⟩

/-- A window of a microsecond in the unit of the timestamps, for concrete
runs. -/
def sampleConfig (histogramBins : Nat) (tags : Nat) : StatisticsConfig :=
  ⟨⟨1000, .nsec⟩, histogramBins, tags, .sec⟩

end Statistics

end Handystats
