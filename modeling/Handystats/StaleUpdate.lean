/-
An update older than the window: what it leaves behind.

`update_interval_data` lets such a value in with weight 0, and the data
timestamp it may raise belongs to data that have expired (`ExpiredZero`).
But the histogram gets a bin of weight 1, and `m_value`, from which the next
rate delta is taken, is overwritten. `stale_update_invisible_iff` says
exactly when nothing of it can be seen.
-/
import Handystats.HistogramWeight

namespace Handystats.Statistics

open Runs Fading MathUtils

variable {K : Type} [Field K] [LinearOrder K]
variable {pf : Platform K} {config : StatisticsConfig} {st st' a b a' b' : Statistics K}

/-- Two objects with the same windowed statistics: the interval data and the
bins' centers and counts. -/
structure SameWindow (a b : Statistics K) : Prop where
  config : a.config = b.config
  movingCount : a.movingCount = b.movingCount
  movingSum : a.movingSum = b.movingSum
  rate : a.rate = b.rate
  histogram : a.histogram.map (fun bin => (bin.center, bin.count)) =
    b.histogram.map fun bin => (bin.center, bin.count)

/-- What `get<moving_avg>` and `get<rate>` answer goes with them. -/
theorem SameWindow.getters (h : SameWindow a b) :
    a.getMovingAvg = b.getMovingAvg ∧ a.getRate pf = b.getRate pf := by
  obtain ⟨_, _, _, _, _, _, _, _, _, _, _, _⟩ := a
  obtain ⟨_, _, _, _, _, _, _, _, _, _, _, _⟩ := b
  obtain ⟨rfl, rfl, rfl, rfl, -⟩ := h
  exact ⟨rfl, rfl⟩

/-! ## Expired data -/

/-- Of the interval data that are computed, all are 0. -/
def ZeroData (st : Statistics K) : Prop :=
  (st.computed .movingCount = true → st.movingCount = 0) ∧
    (st.computed .movingSum = true → st.movingSum = 0) ∧ (st.computed .rate = true → st.rate = 0)

/-- The interval data are gone when the window has moved past their stamp. -/
def ExpiredZero (pf : Platform K) (st : Statistics K) : Prop :=
  st.dataTimestamp + st.interval pf < st.timestamp → st.ZeroData

/-- A value of weight 0 leaves no data where there were none. -/
theorem ZeroData.updated (hM : 0 < st.interval pf) (h : st.ZeroData) {t : Int}
    (ht : t < st.timestamp - st.interval pf) (v : K) (hist : Histogram K) :
    (st.updated pf v t hist).ZeroData := by
  obtain ⟨hcount, hsum, hrate⟩ := h
  have hw : st.entryWeight pf t = 0 := if_pos ht
  simp only [ZeroData, Statistics.updated, updateIntervalData_weighted hM, hw]
  refine ⟨fun hc => ?_, fun hc => ?_, fun hc => ?_⟩ <;> change st.computed _ = true at hc <;>
    rw [if_pos hc]
  · rw [hcount hc]; ring
  · rw [hsum hc]; ring
  · rw [hrate hc]; ring

theorem ZeroData.updateTime (h : st.ZeroData) (t : Int) : (st.updateTime pf t).ZeroData := by
  obtain ⟨hcount, hsum, hrate⟩ := h
  simp only [ZeroData, updateTime_computed, updateTime_movingCount, updateTime_movingSum,
    updateTime_rate]
  refine ⟨fun hc => ?_, fun hc => ?_, fun hc => ?_⟩ <;> rw [if_pos hc]
  · rw [hcount hc, zero_mul]
  · rw [hsum hc, zero_mul]
  · rw [hrate hc, zero_mul]

theorem zeroData_of_expired {t : Int} (ht : st.timestamp < t)
    (hD : st.dataTimestamp + st.interval pf ≤ t) : (st.updateTime pf t).ZeroData := by
  have hk : st.kept pf st.dataTimestamp t = 0 := keep_of_expired ht hD
  simp only [ZeroData, updateTime_computed, updateTime_movingCount, updateTime_movingSum,
    updateTime_rate, hk, mul_zero]
  exact ⟨fun hc => if_pos hc, fun hc => if_pos hc, fun hc => if_pos hc⟩

omit [LinearOrder K] in
/-- Without the timestamp, there are no interval data. -/
theorem zeroData_of_not_timestamp (h : st.computed .timestamp = false) : st.ZeroData := by
  simp [ZeroData, not_computed_of_not_timestamp h .movingCount (by simp),
    not_computed_of_not_timestamp h .movingSum (by simp),
    not_computed_of_not_timestamp h .rate (by simp)]

/-- One call keeps it. At a value stamped `m_timestamp - moving_interval`
exactly, the data are as old as the window and not zero: hence `<`. -/
theorem step_expiredZero (hM : 0 < st.interval pf) (hI : ExpiredZero pf st) {c : Call K}
    (h : step pf st c = .ok st') : ExpiredZero pf st' := by
  cases hts : st.computed .timestamp with
  | false =>
    have hcfg := step_config h
    exact fun _ => zeroData_of_not_timestamp (by rwa [computed, hcfg])
  | true =>
    intro hD
    cases c with
    | update v t =>
      obtain ⟨hist, -, rfl⟩ := update_ok.1 h
      rw [updated_dataTimestamp, updated_interval, updated_timestamp, if_pos hts, if_pos hts] at hD
      exact (hI (by omega)).updated hM (by omega) v hist
    | updateTime t =>
      simp only [step, Except.ok.injEq] at h
      subst h
      rw [updateTime_dataTimestamp, updateTime_interval, updateTime_timestamp, if_pos hts] at hD
      rcases le_or_gt t st.timestamp with ht | ht
      · exact (hI (by omega)).updateTime t
      · exact zeroData_of_expired ht (by omega)

theorem Reachable.expiredZero (hM : 0 < pf.clock.count config.movingInterval)
    (h : Reachable pf config st) : ExpiredZero pf st := by
  have hinv := h.inv (I := fun st => st.config = config ∧ ExpiredZero pf st) ⟨rfl, ?_⟩ ?_
  · exact hinv.2
  · exact fun _ => ⟨fun _ => rfl, fun _ => rfl, fun _ => rfl⟩
  · rintro s c s' ⟨hcfg, hI⟩ hs
    exact ⟨(step_config hs).trans hcfg, step_expiredZero (by rw [interval, hcfg]; exact hM) hI hs⟩

/-! ## Two runs -/

/-- `a` has taken in a stale value that `b` has not: all that may differ is
the stamp of data that are gone, and a value no rate depends on. -/
structure Shadows (pf : Platform K) (a b : Statistics K) : Prop where
  config : a.config = b.config
  movingCount : a.movingCount = b.movingCount
  movingSum : a.movingSum = b.movingSum
  rate : a.rate = b.rate
  histogram : a.histogram = b.histogram
  timestamp : a.timestamp = b.timestamp
  value : a.computed .rate = true → a.value = b.value
  data : a.dataTimestamp = b.dataTimestamp ∨
    (a.dataTimestamp + a.interval pf < a.timestamp ∧ b.dataTimestamp + a.interval pf < a.timestamp ∧
      a.ZeroData)

namespace Shadows

theorem sameWindow (h : Shadows pf a b) : SameWindow a b :=
  ⟨h.config, h.movingCount, h.movingSum, h.rate, by rw [h.histogram]⟩

theorem computed_eq (h : Shadows pf a b) (tag : Tag) : a.computed tag = b.computed tag := by
  rw [computed, computed, h.config]

theorem interval_eq (h : Shadows pf a b) : a.interval pf = b.interval pf := by
  rw [interval, interval, h.config]

theorem ite_congr (h : Shadows pf a b) (tag : Tag) {α : Type} {x x' y y' : α}
    (hx : a.computed tag = true → x = x') (hy : y = y') :
    (if a.computed tag = true then x else y) = if b.computed tag = true then x' else y' := by
  rw [← h.computed_eq tag]
  by_cases hc : a.computed tag = true
  · rw [if_pos hc, if_pos hc, hx hc]
  · rw [if_neg hc, if_neg hc, hy]

theorem kept_eq (h : Shadows pf a b) (D t : Int) : a.kept pf D t = b.kept pf D t := by
  rw [kept, kept, h.interval_eq, h.timestamp]

/-- The interval data fade alike: with one stamp, or being 0. -/
theorem faded (h : Shadows pf a b) (t : Int) :
    (a.computed .movingCount = true →
      a.movingCount * a.kept pf a.dataTimestamp t = b.movingCount * b.kept pf b.dataTimestamp t) ∧
    (a.computed .movingSum = true →
      a.movingSum * a.kept pf a.dataTimestamp t = b.movingSum * b.kept pf b.dataTimestamp t) ∧
    (a.computed .rate = true →
      a.rate * a.kept pf a.dataTimestamp t = b.rate * b.kept pf b.dataTimestamp t) := by
  rw [← h.movingCount, ← h.movingSum, ← h.rate]
  rcases h.data with hD | ⟨-, -, hcount, hsum, hrate⟩
  · rw [h.kept_eq, hD]
    exact ⟨fun _ => rfl, fun _ => rfl, fun _ => rfl⟩
  · refine ⟨fun hc => ?_, fun hc => ?_, fun hc => ?_⟩
    · rw [hcount hc, zero_mul, zero_mul]
    · rw [hsum hc, zero_mul, zero_mul]
    · rw [hrate hc, zero_mul, zero_mul]

/-- `update`, where there is no histogram to maintain. -/
theorem updated (hM : 0 < a.interval pf) (h : Shadows pf a b) (v : K) (t : Int) :
    Shadows pf (a.updated pf v t a.histogram) (b.updated pf v t b.histogram) := by
  have hM' : 0 < b.interval pf := by rwa [← h.interval_eq]
  have hw : a.entryWeight pf t = b.entryWeight pf t := by
    rw [entryWeight, entryWeight, h.timestamp, h.interval_eq]
  obtain ⟨hcount, hsum, hrate⟩ := h.faded t
  constructor
  case config => exact h.config
  case histogram => exact h.histogram
  case timestamp => exact h.ite_congr _ (fun _ => by rw [h.timestamp]) h.timestamp
  case movingCount =>
    refine h.ite_congr _ (fun hc => ?_) h.movingCount
    rw [updateIntervalData_weighted hM, updateIntervalData_weighted hM', hcount hc, hw]
  case movingSum =>
    refine h.ite_congr _ (fun hc => ?_) h.movingSum
    rw [updateIntervalData_weighted hM, updateIntervalData_weighted hM', hsum hc, hw]
  case rate =>
    refine h.ite_congr _ (fun hc => ?_) h.rate
    rw [updateIntervalData_weighted hM, updateIntervalData_weighted hM', hrate hc, hw, h.value hc]
  case value => exact fun hc => h.ite_congr _ (fun _ => rfl) (h.value hc)
  case data =>
    rw [updated_dataTimestamp, updated_dataTimestamp, updated_timestamp, updated_interval]
    cases hts : a.computed .timestamp with
    | false =>
      rw [← h.computed_eq, hts]
      rcases h.data with hD | ⟨ha, hb, -⟩
      · exact .inl hD
      · exact .inr ⟨ha, hb, zeroData_of_not_timestamp hts⟩
    | true =>
      rw [← h.computed_eq, hts, if_pos rfl, if_pos rfl, if_pos rfl]
      rcases h.data with hD | ⟨ha, hb, hzero⟩
      · exact .inl (by rw [hD])
      · rcases lt_or_ge t (a.timestamp - a.interval pf) with ht | ht
        · exact .inr ⟨by omega, by omega, hzero.updated hM ht v _⟩
        · -- A value that is not stale gives both the same stamp again.
          exact .inl (by omega)

theorem updateTime (h : Shadows pf a b) (t : Int) :
    Shadows pf (a.updateTime pf t) (b.updateTime pf t) := by
  obtain ⟨hcount, hsum, hrate⟩ := h.faded t
  constructor
  case config => simpa using h.config
  case histogram =>
    have hfade : a.fadedBin pf t = b.fadedBin pf t :=
      funext fun bin => by rw [fadedBin, fadedBin, h.kept_eq]
    rw [updateTime_histogram, updateTime_histogram, h.histogram, hfade, h.config]
    simp only [h.computed_eq]
  case timestamp =>
    rw [updateTime_timestamp, updateTime_timestamp]
    exact h.ite_congr _ (fun _ => by rw [h.timestamp]) h.timestamp
  case movingCount =>
    rw [updateTime_movingCount, updateTime_movingCount]
    exact h.ite_congr _ hcount h.movingCount
  case movingSum =>
    rw [updateTime_movingSum, updateTime_movingSum]
    exact h.ite_congr _ hsum h.movingSum
  case rate =>
    rw [updateTime_rate, updateTime_rate]
    exact h.ite_congr _ hrate h.rate
  case value => simpa using h.value
  case data =>
    simp only [updateTime_dataTimestamp, updateTime_interval, updateTime_timestamp]
    rcases h.data with hD | ⟨ha, hb, hzero⟩
    · exact .inl hD
    · refine .inr ⟨?_, ?_, hzero.updateTime t⟩ <;> split_ifs <;> omega

theorem step (hM : 0 < a.interval pf)
    (hno : a.computed .histogram = false ∨ a.config.histogramBins = 0) (h : Shadows pf a b)
    {c : Call K} (ha : Statistics.step pf a c = .ok a') (hb : Statistics.step pf b c = .ok b') :
    Shadows pf a' b' := by
  have hno' : b.computed .histogram = false ∨ b.config.histogramBins = 0 := by
    rwa [← h.computed_eq, ← h.config]
  cases c with
  | update v t =>
    simp only [Statistics.step, update_of_not_histogram hno, update_of_not_histogram hno',
      Except.ok.injEq] at ha hb
    subst ha hb
    exact h.updated hM v t
  | updateTime t =>
    simp only [Statistics.step, Except.ok.injEq] at ha hb
    subst ha hb
    exact h.updateTime t

end Shadows

/-! ## What can be seen -/

/-- The start: an object after a stale value, and the object before it. -/
theorem shadows_of_stale (hM : 0 < st.interval pf) (hI : ExpiredZero pf st) {v : K} {t : Int}
    (ht : t < st.timestamp - st.interval pf) (hv : st.computed .rate = true → v = st.value) :
    Shadows pf (st.updated pf v t st.histogram) st := by
  have hw : st.entryWeight pf t = 0 := if_pos ht
  have hk : st.kept pf st.dataTimestamp t = 1 := keep_of_le (by omega)
  have hmax : max st.timestamp t = st.timestamp := by omega
  constructor
  case config => rfl
  case histogram => rfl
  case timestamp => rw [updated_timestamp, hmax, ite_self]
  case value =>
    intro hc
    have hval : st.computed .value = true := by
      rw [computed, StatisticsConfig.computed_value, Bool.or_eq_true, ← StatisticsConfig.computed_rate]
      exact .inr hc
    exact (if_pos hval).trans (hv hc)
  case data =>
    rw [updated_dataTimestamp, updated_interval, updated_timestamp, hmax, ite_self]
    split_ifs
    · rcases le_or_gt t st.dataTimestamp with hD | hD
      · exact .inl (max_eq_left hD)
      · exact .inr ⟨by omega, by omega, (hI (by omega)).updated hM ht v _⟩
    · exact .inl rfl
  all_goals
    simp only [Statistics.updated, updateIntervalData_weighted hM, hw, hk, mul_one, zero_mul, add_zero,
      ite_self]

variable [IsStrictOrderedRing K]

/-- A stale value changes the histogram it enters: the total or the length. -/
theorem histogram_changed (htag : st.computed .histogram = true) (hbins : st.config.histogramBins ≠ 0)
    {calls : List (Call K)} (hI : HistogramInv calls st) {v : K} {t : Int} (ht : t ≤ st.timestamp)
    (h : st.update pf v t = .ok st') : ¬ SameWindow st' st := by
  intro hsame
  obtain ⟨removed, hd, hempty, htotal⟩ := update_total htag hbins hI h
  have hk : st.kept pf t t = 1 := keep_of_le ht
  rw [max_eq_right ht, shiftHistogram_eq hbins, List.map_congr_left fun bin _ => fadedBin_of_le le_rfl bin,
    List.map_id', hk] at htotal
  have hcounts : st'.histogram.total = st.histogram.total := by
    have := congrArg (List.map Prod.snd) hsame.histogram
    simp only [List.map_map] at this
    exact congrArg List.sum this
  have hone : Histogram.total removed = 1 := by linarith
  -- One bin more was reduced to as many as before, so two at most are missing.
  obtain ⟨hist, hhist, rfl⟩ := update_ok.1 h
  rcases update_histogram_cases.1 hhist with ⟨hno, -⟩ | ⟨-, -, hreduced⟩
  · simp [htag, hbins] at hno
  have hins : (st.insertAndShift pf v t).length = st.histogram.length + 1 := by
    rw [insertAndShift_eq hbins, List.length_map, List.length_insertIdx_of_le_length]
    exact (pf.lowerBound_correct _ _ hI.wellFormed.sorted).le_length
  have hlen : hist.length = st.histogram.length := by
    have := congrArg List.length hsame.histogram
    rwa [List.length_map, List.length_map] at this
  have htwo : removed.length ≤ 2 :=
    discardedBins_length (by rw [hins]; exact Nat.succ_le_succ hI.length_le) hreduced (by omega) hd
  have hle : Histogram.total removed ≤ removed.length • (doubleEps : K) := by
    have := List.sum_le_card_nsmul (removed.map Bin.count) doubleEps (by simpa using hempty)
    simpa [Histogram.total] using this
  have : (removed.length : K) ≤ 2 := by exact_mod_cast htwo
  rw [nsmul_eq_mul, hone] at hle
  have hsmall := doubleEps_value (K := K)
  nlinarith [doubleEps_pos (K := K)]

omit [IsStrictOrderedRing K] in
/-- What a value stamped `m_timestamp` does to the rate. -/
theorem updated_rate_now (hM : 0 < st.interval pf) (hrate : st.computed .rate = true) (v : K) {t : Int}
    (ht : t = st.timestamp) (hist : Histogram K) :
    (st.updated pf v t hist).rate = st.rate + (v - st.value) := by
  have hw : st.entryWeight pf t = 1 := if_neg (by omega)
  have hk : st.kept pf st.dataTimestamp t = 1 := keep_of_le (by omega)
  simp only [Statistics.updated]
  rw [if_pos hrate, updateIntervalData_weighted hM, hw, hk, mul_one, one_mul]

omit [IsStrictOrderedRing K] in
/-- A stale value moves the base of the rate's next delta. -/
theorem rate_changed (hM : 0 < st.interval pf)
    (hno : st.computed .histogram = false ∨ st.config.histogramBins = 0)
    (hrate : st.computed .rate = true) {v : K} (hv : v ≠ st.value) {t : Int}
    (ht : t < st.timestamp - st.interval pf) :
    ∃ c a b, step pf (st.updated pf v t st.histogram) c = .ok a ∧ step pf st c = .ok b ∧
      ¬ SameWindow a b := by
  have hval : st.computed .value = true := by
    rw [computed, StatisticsConfig.computed_value, Bool.or_eq_true, ← StatisticsConfig.computed_rate]
    exact .inr hrate
  have hT : (st.updated pf v t st.histogram).timestamp = st.timestamp := by
    rw [updated_timestamp, max_eq_left (by omega), ite_self]
  refine ⟨.update 0 st.timestamp, _, _,
    update_of_not_histogram (show (st.updated pf v t st.histogram).computed .histogram = false ∨
      (st.updated pf v t st.histogram).config.histogramBins = 0 from hno) 0 _,
    update_of_not_histogram hno 0 _, fun hsame => hv ?_⟩
  have hstale : (st.updated pf v t st.histogram).rate = st.rate := by
    simp only [Statistics.updated]
    rw [if_pos hrate, updateIntervalData_weighted hM, entryWeight, if_pos ht, kept,
      keep_of_le (by omega), mul_one, zero_mul, add_zero]
  have hvalue : (st.updated pf v t st.histogram).value = v := if_pos hval
  have hdiff := hsame.rate
  have hM' : 0 < (st.updated pf v t st.histogram).interval pf := hM
  rw [updated_rate_now hM hrate 0 rfl, updated_rate_now hM' hrate 0 hT.symm, hstale, hvalue] at hdiff
  simpa using hdiff

/-- **A stale update is invisible** if, and only if, there is no histogram to
maintain and, where there is a rate, the value is the last one again. -/
theorem stale_update_invisible_iff (hM : 0 < pf.clock.count config.movingInterval)
    (hr : Reachable pf config st) {v : K} {t : Int} (ht : t < st.timestamp - st.interval pf)
    (h : st.update pf v t = .ok st') :
    (∀ later a b, run (step pf) st' later = .ok a → run (step pf) st later = .ok b → SameWindow a b) ↔
      (config.computed .histogram = false ∨ config.histogramBins = 0) ∧
        (config.computed .rate = false ∨ v = st.value) := by
  have hcfg := hr.config_eq
  have hM' : 0 < st.interval pf := by rwa [hr.interval_eq]
  constructor
  · intro hsame
    have hno : config.computed .histogram = false ∨ config.histogramBins = 0 := by
      by_contra hhist
      rw [not_or, Bool.not_eq_false] at hhist
      obtain ⟨calls, hcalls⟩ := hr
      exact histogram_changed (by rw [computed, hcfg]; exact hhist.1) (by rw [hcfg]; exact hhist.2)
        hcalls.histogramInv (by omega) h (hsame [] _ _ rfl rfl)
    refine ⟨hno, ?_⟩
    by_contra hrate
    rw [not_or, Bool.not_eq_false] at hrate
    have hno' : st.computed .histogram = false ∨ st.config.histogramBins = 0 := by
      rwa [computed, hcfg]
    rw [update_of_not_histogram hno', Except.ok.injEq] at h
    obtain ⟨c, a, b, ha, hb, hne⟩ :=
      rate_changed hM' hno' (by rw [computed, hcfg]; exact hrate.1) hrate.2 ht
    subst h
    exact hne (hsame [c] a b (run_singleton_ok.2 ha) (run_singleton_ok.2 hb))
  · rintro ⟨hno, hrate⟩ later a b ha hb
    have hno' : st.computed .histogram = false ∨ st.config.histogramBins = 0 := by
      rwa [computed, hcfg]
    rw [update_of_not_histogram hno', Except.ok.injEq] at h
    subst h
    have hstart := shadows_of_stale hM' (hr.expiredZero hM) ht (v := v) fun hc => by
      rw [computed, hcfg] at hc
      simpa [hc] using hrate
    have hend := run_rel (R := fun a b => Shadows pf a b ∧ a.config = config) ?_ ⟨hstart, hcfg⟩ ha hb
    · exact hend.1.sameWindow
    · rintro a b c a' b' ⟨hR, hca⟩ ha hb
      exact ⟨hR.step (by rw [interval, hca]; exact hM) (by rwa [computed, hca]) ha hb,
        (step_config ha).trans hca⟩

theorem stale_update_invisible_sample :
    ∃ st st' : Statistics ℚ,
      RunsTo (.inUnit .nsec) (sampleConfig 0 Tag.movingAvg.bit) [.update 3 5000] st ∧
      st.update (.inUnit .nsec) 9 100 = .ok st' ∧
      ∀ later a b, run (step (.inUnit .nsec)) st' later = .ok a →
        run (step (.inUnit .nsec)) st later = .ok b → SameWindow a b := by
  have hrun : RunsTo (.inUnit .nsec) (sampleConfig 0 Tag.movingAvg.bit) [.update (3 : ℚ) 5000]
      ((initial (sampleConfig 0 Tag.movingAvg.bit)).updated (.inUnit .nsec) 3 5000 []) :=
    run_singleton_ok.2 (update_of_not_histogram (.inr rfl) 3 5000)
  have hreachable := hrun.reachable
  generalize hst : (initial (sampleConfig 0 Tag.movingAvg.bit)).updated (.inUnit .nsec) (3 : ℚ) 5000 [] = st at *
  have hstale : st.update (.inUnit .nsec) 9 100 = .ok (st.updated (.inUnit .nsec) 9 100 st.histogram) :=
    update_of_not_histogram (.inr (by rw [← hst]; rfl)) 9 100
  refine ⟨_, _, hrun, hstale, (stale_update_invisible_iff (by decide +kernel) hreachable ?_ hstale).2
    ⟨.inr rfl, .inl (by decide +kernel)⟩⟩
  subst hst
  decide +kernel

/-- A value 4900 ns older than the last one, at a window of 1000 ns: the
histogram gets a bin for it, of weight 1. -/
theorem stale_update_seen :
    ∃ st st' : Statistics ℚ,
      RunsTo (.inUnit .nsec) (sampleConfig 2 Tag.histogram.bit) [.update 3 5000] st ∧
      (100 : Int) < st.timestamp - st.interval (.inUnit .nsec) ∧
      st.update (.inUnit .nsec) 9 100 = .ok st' ∧
      st.histogram = [⟨3, 1 / 6, 5000⟩] ∧ st'.histogram = [⟨3, 1 / 6, 5000⟩, ⟨9, 1, 100⟩] ∧
      ¬ SameWindow st' st := by
  let st₀ : Statistics ℚ := initial (sampleConfig 2 Tag.histogram.bit)
  have hhist : (if st₀.computed .histogram then st₀.updateHistogram (.inUnit .nsec) 3 5000
      else .ok st₀.histogram) = .ok [⟨3, 1 / 6, 5000⟩] := by decide +kernel
  let st : Statistics ℚ := st₀.updated (.inUnit .nsec) 3 5000 [⟨3, 1 / 6, 5000⟩]
  have hhist' : (if st.computed .histogram then st.updateHistogram (.inUnit .nsec) 9 100
      else .ok st.histogram) = .ok [⟨3, 1 / 6, 5000⟩, ⟨9, 1, 100⟩] := by decide +kernel
  refine ⟨st, _, run_singleton_ok.2 (update_ok.2 ⟨_, hhist, rfl⟩), by decide +kernel,
    update_ok.2 ⟨_, hhist', rfl⟩, rfl, rfl, fun hsame => ?_⟩
  exact absurd (congrArg List.length hsame.histogram) (by decide)

end Handystats.Statistics
