/-
`get<tag::rate>` against `get<tag::moving_sum>`: the rate of a run is the
moving sum of the run that is fed the changes of the value, per rate unit.

The two objects go in step: `m_rate` of the one and `m_moving_sum` of the
other are one number, `m_value` the value the next change is taken against.
What the two getters then differ in is a factor, for which `convert_to` is
asked in the direction that loses nothing.
-/
import Handystats.DurationOrder
import Handystats.TagIndependence

namespace Handystats

variable {K : Type} [Field K] [LinearOrder K]

/-- The calls with each value replaced by its change, the first against
`previous`. -/
def Call.changes (previous : K) : List (Call K) → List (Call K)
  | [] => []
  | .update v t :: calls => .update (v - previous) t :: changes v calls
  | .updateTime t :: calls => .updateTime t :: changes previous calls

namespace Statistics

open Runs

variable {pf : Platform K} {st₁ st₂ st₁' st₂' : Statistics K}

/-- `st₁` keeps the rate of what `st₂` keeps the moving sum of. -/
structure RateOf (st₁ st₂ : Statistics K) : Prop where
  rate : st₁.computed .rate = true
  movingSum : st₂.computed .movingSum = true
  interval : st₂.config.movingInterval = st₁.config.movingInterval
  timestamp : st₂.timestamp = st₁.timestamp
  dataTimestamp : st₂.dataTimestamp = st₁.dataTimestamp
  eq : st₁.rate = st₂.movingSum

namespace RateOf

omit [Field K] in
theorem interval_eq (h : RateOf st₁ st₂) : st₂.interval pf = st₁.interval pf := by
  simp only [Statistics.interval, h.interval]

omit [Field K] [LinearOrder K] in
theorem timestamp_computed (h : RateOf st₁ st₂) :
    st₁.computed .timestamp = true ∧ st₂.computed .timestamp = true :=
  ⟨StatisticsConfig.computed_timestamp h.rate (by simp),
    StatisticsConfig.computed_timestamp h.movingSum (by simp)⟩

/-- On all branches of `update_interval_data` the two take in the same
change. -/
theorem update (h : RateOf st₁ st₂) {v : K} {t : Int} (h₁ : st₁.update pf v t = .ok st₁')
    (h₂ : st₂.update pf (v - st₁.value) t = .ok st₂') : RateOf st₁' st₂' ∧ st₁'.value = v := by
  obtain ⟨hist₁, -, rfl⟩ := update_ok.1 h₁
  obtain ⟨hist₂, -, rfl⟩ := update_ok.1 h₂
  obtain ⟨ht₁, ht₂⟩ := h.timestamp_computed
  refine ⟨⟨h.rate, h.movingSum, h.interval, ?_, ?_, ?_⟩, ?_⟩
  · rw [updated_timestamp, updated_timestamp, if_pos ht₁, if_pos ht₂, h.timestamp]
  · rw [updated_dataTimestamp, updated_dataTimestamp, if_pos ht₁, if_pos ht₂, h.dataTimestamp]
  · simp only [updated, h.rate, h.movingSum, if_true, h.dataTimestamp, h.eq,
      updateIntervalData_congr h.timestamp h.interval_eq]
  · have hval : st₁.computed .value = true := by
      have hen := h.rate
      simp only [computed, StatisticsConfig.computed_rate] at hen
      simp only [computed, StatisticsConfig.computed_value, hen, Bool.or_true]
    simp only [updated, hval, if_true]

theorem updateTime (h : RateOf st₁ st₂) (t : Int) :
    RateOf (st₁.updateTime pf t) (st₂.updateTime pf t) := by
  obtain ⟨ht₁, ht₂⟩ := h.timestamp_computed
  refine ⟨?_, ?_, ?_, ?_, ?_, ?_⟩
  · rw [updateTime_computed, h.rate]
  · rw [updateTime_computed, h.movingSum]
  · rw [updateTime_config, updateTime_config, h.interval]
  · rw [updateTime_timestamp, updateTime_timestamp, if_pos ht₁, if_pos ht₂, h.timestamp]
  · rw [updateTime_dataTimestamp, updateTime_dataTimestamp, h.dataTimestamp]
  · simp only [updateTime_rate, updateTime_movingSum, h.rate, h.movingSum, if_true, h.eq,
      h.dataTimestamp, kept_congr h.timestamp h.interval_eq]

/-- **Whole runs**, by induction on the calls: what changes are taken against
is the first object's `m_value`. -/
theorem run (h : RateOf st₁ st₂) (calls : List (Call K))
    (h₁ : Runs.run (step pf) st₁ calls = .ok st₁')
    (h₂ : Runs.run (step pf) st₂ (Call.changes st₁.value calls) = .ok st₂') : RateOf st₁' st₂' := by
  induction calls generalizing st₁ st₂ with
  | nil =>
    simp only [Call.changes, run_nil, Except.ok.injEq] at h₁ h₂
    subst h₁ h₂
    exact h
  | cons c calls ih =>
    obtain ⟨m₁, hc₁, hr₁⟩ := run_cons_ok.1 h₁
    cases c with
    | update v t =>
      obtain ⟨m₂, hc₂, hr₂⟩ := run_cons_ok.1 h₂
      obtain ⟨hm, hv⟩ := h.update hc₁ hc₂
      exact ih hm hr₁ (by rwa [hv])
    | updateTime t =>
      obtain ⟨m₂, hc₂, hr₂⟩ := run_cons_ok.1 h₂
      have hm₁ : st₁.updateTime pf t = m₁ := Except.ok.inj hc₁
      have hm₂ : st₂.updateTime pf t = m₂ := Except.ok.inj hc₂
      subst hm₁ hm₂
      exact ih (h.updateTime t) hr₁ (by rwa [updateTime_value])

end RateOf

/-! ## The factor -/

variable [IsStrictOrderedRing K]

/-- `get<rate>` divides by no zero, and by what it does its factor is the
quotient of the two durations in nanoseconds. -/
theorem getRate_eq (pf : Platform K) (st : Statistics K) (hr : st.config.rateUnit ≠ .tick)
    (hm : st.config.movingInterval.unit ≠ .tick) (h0 : 0 < st.config.movingInterval.rep)
    (hfit : FitsInt64 st.config.movingInterval.nanoseconds) :
    (precisionClass st.config.rateUnit < precisionClass st.config.movingInterval.unit →
        (pf.clock.countIn st.config.rateUnit st.config.movingInterval : K) ≠ 0) ∧
      (st.config.movingInterval.rep : K) ≠ 0 ∧
      st.getRate pf = st.get .rate (st.rate * (nsecFactor st.config.rateUnit : K) /
        (st.config.movingInterval.nanoseconds : K)) := by
  have hposr := nsecFactor_pos hr
  have hposm := nsecFactor_pos hm
  have hrep : (st.config.movingInterval.rep : K) ≠ 0 := by exact_mod_cast h0.ne'
  have hns : 0 < st.config.movingInterval.nanoseconds := Int.mul_pos h0 hposm
  have hr' : (nsecFactor st.config.rateUnit : K) ≠ 0 := by exact_mod_cast hposr.ne'
  have hm' : (nsecFactor st.config.movingInterval.unit : K) ≠ 0 := by exact_mod_cast hposm.ne'
  by_cases hcls : precisionClass st.config.rateUnit < precisionClass st.config.movingInterval.unit
  · -- whole rate units in the moving interval
    have hfactor := Duration.convertTo_finer pf.clock.cyclesPerNanosec hm hr hcls.le hfit (.inl h0.le)
    have hne : (pf.clock.countIn st.config.rateUnit st.config.movingInterval : K) ≠ 0 := by
      refine Int.cast_ne_zero.mpr fun hzero => ?_
      rw [Clock.countIn] at hzero
      rw [hzero, Int.zero_mul] at hfactor
      omega
    refine ⟨fun _ => hne, hrep, ?_⟩
    have hcast : (st.config.movingInterval.nanoseconds : K) =
        (pf.clock.countIn st.config.rateUnit st.config.movingInterval : K) *
          (nsecFactor st.config.rateUnit : K) := by
      rw [Clock.countIn, ← hfactor]
      push_cast
      rfl
    simp only [getRate, if_pos hcls]
    rw [hcast, mul_div_mul_right _ _ hr']
  · -- whole interval units in the rate unit
    have hbound := (nsecFactor_bounds hr).1
    have hone : FitsInt64 (Duration.nanoseconds ⟨1, st.config.rateUnit⟩) := by
      simp only [Duration.nanoseconds, Int.one_mul]
      exact ⟨by omega, by omega⟩
    have hfactor := Duration.convertTo_finer pf.clock.cyclesPerNanosec
      (d := ⟨1, st.config.rateUnit⟩) hr hm (not_lt.mp hcls) hone (.inl Int.one_nonneg)
    refine ⟨fun h => absurd h hcls, hrep, ?_⟩
    have hcast : (nsecFactor st.config.rateUnit : K) =
        (pf.clock.countIn st.config.movingInterval.unit ⟨1, st.config.rateUnit⟩ : K) *
          (nsecFactor st.config.movingInterval.unit : K) := by
      have hint : (nsecFactor st.config.rateUnit : Int) =
          pf.clock.countIn st.config.movingInterval.unit ⟨1, st.config.rateUnit⟩ *
            nsecFactor st.config.movingInterval.unit := by
        rw [Clock.countIn, hfactor, Duration.nanoseconds, Int.one_mul]
      exact_mod_cast congrArg (Int.cast : Int → K) hint
    simp only [getRate, if_neg hcls]
    rw [hcast, Duration.nanoseconds]
    push_cast
    rw [← mul_assoc, mul_div_mul_right _ _ hm']

/-- **Rate is the moving sum of the changes, per rate unit.** An object with
the tag `rate` and one with `moving_sum` and the same moving interval: after
any calls, and the same calls with the changes of the values, the rate of the
first is the moving sum of the second times the nanoseconds of the rate unit
over those of the moving interval. Neither the fades of the run nor the
getter divide by zero; without a histogram to maintain the calls return. -/
theorem rate_eq_movingSum_of_changes (pf : Platform K) {c₁ c₂ : StatisticsConfig}
    (hrate : c₁.enabled .rate = true) (hsum : c₂.enabled .movingSum = true)
    (hinterval : c₂.movingInterval = c₁.movingInterval) (hm : c₁.movingInterval.unit ≠ .tick)
    (h0 : 0 < c₁.movingInterval.rep) (hfit : FitsInt64 c₁.movingInterval.nanoseconds)
    (hr : c₁.rateUnit ≠ .tick) (calls : List (Call K)) :
    (c₁.computed .histogram = false → ∃ st₁, RunsTo pf c₁ calls st₁) ∧
    (c₂.computed .histogram = false → ∃ st₂, RunsTo pf c₂ (Call.changes 0 calls) st₂) ∧
    ∀ st₁ st₂ : Statistics K, RunsTo pf c₁ calls st₁ → RunsTo pf c₂ (Call.changes 0 calls) st₂ →
      (∃ r s, st₁.getRate pf = .ok r ∧ st₂.getMovingSum = .ok s ∧
        r = s * ((nsecFactor c₁.rateUnit : K) / (c₁.movingInterval.nanoseconds : K))) ∧
      (∀ timestamp, st₁.timestamp < timestamp →
        0 < st₁.staleInterval pf st₁.dataTimestamp timestamp →
          (st₁.shiftDenominator pf st₁.dataTimestamp : K) ≠ 0) ∧
      (precisionClass c₁.rateUnit < precisionClass c₁.movingInterval.unit →
        (pf.clock.countIn c₁.rateUnit c₁.movingInterval : K) ≠ 0) ∧
      (c₁.movingInterval.rep : K) ≠ 0 := by
  refine ⟨fun h => exists_runsTo pf h calls, fun h => exists_runsTo pf h _, fun st₁ st₂ h₁ h₂ => ?_⟩
  have hstart : RateOf (initial (K := K) c₁) (initial c₂) :=
    ⟨by rw [computed, StatisticsConfig.computed_rate]; exact hrate,
      by rw [computed, StatisticsConfig.computed_movingSum]; simp only [initial, hsum, Bool.true_or],
      hinterval, rfl, rfl, rfl⟩
  have hend : RateOf st₁ st₂ := hstart.run calls h₁ h₂
  have hcfg : st₁.config = c₁ := h₁.reachable.config_eq
  obtain ⟨hcount, hrep, hget⟩ := getRate_eq pf st₁ (by rw [hcfg]; exact hr)
    (by rw [hcfg]; exact hm) (by rw [hcfg]; exact h0) (by rw [hcfg]; exact hfit)
  rw [get_of_computed hend.rate, hcfg, hend.eq, mul_div_assoc] at hget
  rw [hcfg] at hcount hrep
  refine ⟨⟨_, st₂.movingSum, hget, get_of_computed hend.movingSum _, rfl⟩,
    fun t hlt hstale => ?_, hcount, hrep⟩
  exact Int.cast_ne_zero.mpr (Fading.denominator_pos hlt hstale).ne'

/-- Over two seconds, per millisecond, a value that went to 3, to 10 and back
to 7. -/
theorem rate_eq_movingSum_of_changes_sample :
    ∃ st₁ st₂ : Statistics ℚ,
      RunsTo (.inUnit .nsec) ⟨⟨2, .sec⟩, 0, Tag.rate.bit, .msec⟩
        [.update 3 0, .update 10 500000000, .updateTime 1000000000, .update 7 0] st₁ ∧
      RunsTo (.inUnit .nsec) ⟨⟨2, .sec⟩, 0, Tag.movingSum.bit, .sec⟩
        [.update (3 - 0) 0, .update (10 - 3) 500000000, .updateTime 1000000000, .update (7 - 10) 0] st₂ ∧
      ∃ r s, st₁.getRate (.inUnit .nsec) = .ok r ∧ st₂.getMovingSum = .ok s ∧
        r = s * ((1000000 : Nat) / (2000000000 : Int)) := by
  obtain ⟨hrun₁, hrun₂, heq⟩ := rate_eq_movingSum_of_changes (K := ℚ) (.inUnit .nsec)
    (show StatisticsConfig.enabled ⟨⟨2, .sec⟩, 0, Tag.rate.bit, .msec⟩ .rate = true by decide)
    (show StatisticsConfig.enabled ⟨⟨2, .sec⟩, 0, Tag.movingSum.bit, .sec⟩ .movingSum = true by decide)
    rfl (by decide) (by decide) (by decide) (by decide)
    [.update 3 0, .update 10 500000000, .updateTime 1000000000, .update 7 0]
  obtain ⟨st₁, h₁⟩ := hrun₁ (by decide +kernel)
  obtain ⟨st₂, h₂⟩ := hrun₂ (by decide +kernel)
  exact ⟨st₁, st₂, h₁, h₂, (heq st₁ st₂ h₁ h₂).1⟩

end Statistics

end Handystats
