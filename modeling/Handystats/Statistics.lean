/-
`statistics`: incremental statistics of time-stamped values, over exact
numbers `K`.

`update` feeds one value, `updateTime` moves the time on. Timestamps are
counts in the unit of the platform's clock; the moving interval is converted
to it wherever the source adds it to, or subtracts it from, a timestamp.
-/
import Handystats.Library.Runs
import Handystats.Library.Fading
import Handystats.StatisticsConfig
import Handystats.Histogram

namespace Handystats

open MathUtils

section Platform

variable {K : Type} [LinearOrder K]

/-! ## What the statistics take from outside -/

/-- Bins in the order of their centers. -/
def SortedByCenter (hist : Histogram K) : Prop := hist.Pairwise fun a b => a.center ≤ b.center

/-- A position of `hist` at which `bin` can be inserted as far as the centers
are concerned. -/
structure InsertionPoint (hist : Histogram K) (bin : Bin K) (k : Nat) : Prop where
  le_length : k ≤ hist.length
  before : ∀ b ∈ hist.take k, b.center ≤ bin.center
  after : ∀ b ∈ hist.drop k, bin.center ≤ b.center

/-- The platform: its clock, `std::lower_bound` on bins and
`std::vector<bin_type>::max_size()`.

`lower_bound` compares whole tuples, and fading changes the counts behind the
order's back; what is taken for granted is that its answer is right about the
centers. -/
structure Platform (K : Type) [LinearOrder K] where
  clock : Clock
  lowerBound : Histogram K → Bin K → Nat
  lowerBound_correct : ∀ hist bin, SortedByCenter hist → InsertionPoint hist bin (lowerBound hist bin)
  maxSize : Nat

/-- The order of `std::tuple`. -/
def Bin.less (a b : Bin K) : Prop :=
  a.center < b.center ∨ (a.center = b.center ∧
    (a.count < b.count ∨ (a.count = b.count ∧ a.timestamp < b.timestamp)))

instance (a b : Bin K) : Decidable (a.less b) := by unfold Bin.less; infer_instance

/-- The first bin that is not less than `bin`. -/
def firstNotLess (hist : Histogram K) (bin : Bin K) : Nat :=
  hist.findIdx fun b => !decide (b.less bin)

theorem firstNotLess_correct (hist : Histogram K) (bin : Bin K) (hs : SortedByCenter hist) :
    InsertionPoint hist bin (firstNotLess hist bin) := by
  refine ⟨List.findIdx_le_length, fun b hb => ?_, fun b hb => ?_⟩
  · obtain ⟨i, hi, rfl⟩ := List.mem_take_iff_getElem.1 hb
    have hless := List.not_of_lt_findIdx (lt_min_iff.1 hi).1
    simp only [Bool.not_eq_false', decide_eq_true_eq] at hless
    rcases hless with h | ⟨h, -⟩
    · exact h.le
    · exact h.le
  · obtain ⟨i, hi, rfl⟩ := List.mem_drop_iff_getElem.1 hb
    have hlt : firstNotLess hist bin < hist.length := by omega
    have hstop : ¬ (hist[firstNotLess hist bin]).less bin := by
      have := List.findIdx_getElem (w := hlt)
      simp only [Bool.not_eq_true', decide_eq_false_iff_not] at this
      exact this
    have hle : bin.center ≤ (hist[firstNotLess hist bin]).center := by
      by_contra hc
      exact hstop (.inl (not_le.1 hc))
    rcases Nat.eq_zero_or_pos i with rfl | hi0
    · simpa using hle
    · exact hle.trans (List.pairwise_iff_getElem.1 hs _ (firstNotLess hist bin + i) hlt (by omega) (by omega))

/-- A platform on which every duration is already in the clock's unit. -/
def Platform.inUnit (u : TimeUnit) : Platform K where
  clock := ⟨u, 1⟩
  lowerBound := firstNotLess
  lowerBound_correct := firstNotLess_correct
  maxSize := 2 ^ 63 / 40

end Platform

variable {K : Type} [Field K] [LinearOrder K]

/-! ## The object -/

/-- `statistics`. -/
@[ext]
structure Statistics (K : Type) where
  config : StatisticsConfig
  value : K
  minValue : K
  maxValue : K
  sum : K
  count : Nat
  movingCount : K
  movingSum : K
  histogram : Histogram K
  timestamp : Int
  rate : K
  dataTimestamp : Int

namespace Statistics

/-- `std::numeric_limits<double>::max()`. -/
def doubleMax : K := (2 - 1 / 2 ^ 52) * 2 ^ 1023

/-- `std::numeric_limits<double>::min()`, the smallest positive normal. -/
def doubleMin : K := 1 / 2 ^ 1022

/-- The fields as `reset` leaves them. -/
def initial (config : StatisticsConfig) : Statistics K where
  config := config
  value := 0
  minValue := doubleMax
  maxValue := doubleMin
  sum := 0
  count := 0
  movingCount := 0
  movingSum := 0
  histogram := []
  timestamp := timePointZero
  rate := 0
  dataTimestamp := timePointZero

/-- `statistics::reset`, with the `reserve` it does. -/
def reset (pf : Platform K) (st : Statistics K) : Except Fault (Statistics K) :=
  if 0 < st.config.histogramBins ∧ pf.maxSize < (st.config.histogramBins + 1) % 2 ^ 64 then
    .error .lengthError
  else .ok (initial st.config)

/-- The constructor `statistics::statistics`. -/
def new (pf : Platform K) (opts : StatisticsConfig) : Except Fault (Statistics K) :=
  reset pf (initial opts)

/-- The moving interval, in the unit of the timestamps. -/
def interval (pf : Platform K) (st : Statistics K) : Int := pf.clock.count st.config.movingInterval

/-- `stale_interval` of `shift_interval_data`. -/
def staleInterval (pf : Platform K) (st : Statistics K) (dataTimestamp timestamp : Int) : Int :=
  dataTimestamp - (timestamp - st.interval pf)

/-- What `shift_interval_data` divides by. -/
def shiftDenominator (pf : Platform K) (st : Statistics K) (dataTimestamp : Int) : Int :=
  st.interval pf - (st.timestamp - dataTimestamp)

/-- `statistics::shift_interval_data`. -/
def shiftIntervalData (pf : Platform K) (st : Statistics K) (data : K)
    (dataTimestamp timestamp : Int) : K :=
  if timestamp ≤ st.timestamp then data
  else if st.staleInterval pf dataTimestamp timestamp ≤ 0 then 0
  else
    data * (st.staleInterval pf dataTimestamp timestamp : K) /
      (st.shiftDenominator pf dataTimestamp : K)

/-- `statistics::update_interval_data`. -/
def updateIntervalData (pf : Platform K) (st : Statistics K) (data : K) (dataTimestamp : Int)
    (value : K) (timestamp : Int) : K :=
  if timestamp ≤ st.timestamp then
    if timestamp < st.timestamp - st.interval pf then data
    else data + value
  else value + st.shiftIntervalData pf data dataTimestamp timestamp

/-- `statistics::shift_histogram`, as the histogram it leaves. -/
def shiftHistogram (pf : Platform K) (st : Statistics K) (timestamp : Int) : Histogram K :=
  if st.config.histogramBins = 0 then st.histogram
  else st.histogram.map fun bin =>
    { bin with count := st.shiftIntervalData pf bin.count bin.timestamp timestamp }

/-- The first part of `statistics::update_histogram`: the new bin is inserted,
and all are faded to its timestamp. -/
def insertAndShift (pf : Platform K) (st : Statistics K) (value : K) (timestamp : Int) :
    Histogram K :=
  let newBin : Bin K := ⟨value, 1, timestamp⟩
  let inserted := st.histogram.insertIdx (pf.lowerBound st.histogram newBin) newBin
  shiftHistogram pf { st with histogram := inserted } timestamp

/-- The second part of `statistics::update_histogram`: empty bins are removed
and, where that is not enough, the closest pair is merged. -/
def reduceHistogram (histogramBins : Nat) (histogram : Histogram K) : Except Fault (Histogram K) := do
  if histogram.length ≤ histogramBins then .ok histogram
  else
    let histogram ← removeEmptyBins histogram
    if histogram.length ≤ histogramBins then .ok histogram
    else mergeClosest histogram

/-- `statistics::update_histogram`, as the histogram it leaves. -/
def updateHistogram (pf : Platform K) (st : Statistics K) (value : K) (timestamp : Int) :
    Except Fault (Histogram K) :=
  if st.config.histogramBins = 0 then .ok st.histogram
  else reduceHistogram st.config.histogramBins (insertAndShift pf st value timestamp)

/-- `statistics::computed`. -/
def computed (st : Statistics K) (t : Tag) : Bool := st.config.computed t

/-- The fields after `statistics::update`, given the histogram.

No block of the source reads a field that a block before it wrote, so every
right-hand side is about the state before the call; in particular the rate's
`delta` is taken against the old `m_value`. -/
def updated (pf : Platform K) (st : Statistics K) (value : K) (timestamp : Int)
    (histogram : Histogram K) : Statistics K where
  config := st.config
  rate :=
    if st.computed .rate then
      st.updateIntervalData pf st.rate st.dataTimestamp (value - st.value) timestamp
    else st.rate
  value := if st.computed .value then value else st.value
  minValue := if st.computed .min then min st.minValue value else st.minValue
  maxValue := if st.computed .max then max st.maxValue value else st.maxValue
  sum := if st.computed .sum then st.sum + value else st.sum
  count := if st.computed .count then st.count + 1 else st.count
  movingCount :=
    if st.computed .movingCount then
      st.updateIntervalData pf st.movingCount st.dataTimestamp 1 timestamp
    else st.movingCount
  movingSum :=
    if st.computed .movingSum then
      st.updateIntervalData pf st.movingSum st.dataTimestamp value timestamp
    else st.movingSum
  histogram := histogram
  timestamp := if st.computed .timestamp then max st.timestamp timestamp else st.timestamp
  dataTimestamp :=
    if st.computed .timestamp then max st.dataTimestamp timestamp else st.dataTimestamp

/-- `statistics::update`. -/
def update (pf : Platform K) (st : Statistics K) (value : K) (timestamp : Int) :
    Except Fault (Statistics K) := do
  let histogram ←
    (if st.computed .histogram then st.updateHistogram pf value timestamp else .ok st.histogram)
  .ok (st.updated pf value timestamp histogram)

/-- `statistics::update_time`. -/
def updateTime (pf : Platform K) (st : Statistics K) (timestamp : Int) : Statistics K :=
  if timestamp ≤ st.timestamp then st
  else
    { st with
      rate :=
        if st.computed .rate then st.shiftIntervalData pf st.rate st.dataTimestamp timestamp
        else st.rate
      movingCount :=
        if st.computed .movingCount then
          st.shiftIntervalData pf st.movingCount st.dataTimestamp timestamp
        else st.movingCount
      movingSum :=
        if st.computed .movingSum then
          st.shiftIntervalData pf st.movingSum st.dataTimestamp timestamp
        else st.movingSum
      histogram :=
        if st.computed .histogram then st.shiftHistogram pf timestamp else st.histogram
      timestamp :=
        if st.computed .timestamp then max st.timestamp timestamp else st.timestamp }

end Statistics

end Handystats
