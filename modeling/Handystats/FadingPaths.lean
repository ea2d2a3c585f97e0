/-
When `update_time` is called does not matter: the metrics dump moves the time
of every metric on at moments of its own, and the statistics a later call
leaves are the same without it.

`updateTime_updateTime` is the law for two calls of `update_time`, on the
whole object; `updateTime_then_step` is the one for `update` after
`update_time`, on the interval data (the histogram lets the new bin in before
it fades, so its bins do depend on the moment, and with them whether a later
`update` stays in bounds).
-/
import Handystats.HistogramBounds

namespace Handystats.Statistics

open Runs Fading

variable {K : Type} [Field K] [LinearOrder K] [IsStrictOrderedRing K]
variable {pf : Platform K} {config : StatisticsConfig} {st st' : Statistics K}

/-- **Telescoping**, on an object: fading past a first moment is fading on. -/
theorem kept_updateTime (pf : Platform K) (h : st.computed .timestamp = true) {t₁ t : Int}
    (ht : t₁ ≤ t) (D : Int) :
    st.kept pf D t₁ * (st.updateTime pf t₁).kept pf D t = st.kept pf D t := by
  simp only [kept, updateTime_timestamp, updateTime_interval, h, if_true]
  rcases le_or_gt t₁ st.timestamp with h₁ | h₁
  · rw [keep_of_le h₁, max_eq_left h₁, one_mul]
  · rw [max_eq_right h₁.le, keep_mul_keep h₁.le ht]

/-- Two calls of `update_time` come to one with the later time. -/
theorem updateTime_updateTime (t₁ t₂ : Int) :
    (st.updateTime pf t₁).updateTime pf t₂ = st.updateTime pf (max t₁ t₂) := by
  cases hts : st.computed .timestamp with
  | false => rw [updateTime_of_not_timestamp hts, updateTime_of_not_timestamp hts,
      updateTime_of_not_timestamp hts]
  | true =>
    rcases le_total t₂ t₁ with h | h
    · -- The second call is not later: it returns early.
      rw [max_eq_left h, updateTime_of_le]
      rw [updateTime_timestamp, if_pos hts]
      exact h.trans (le_max_right _ _)
    · have hk := fun D => kept_updateTime pf hts h D
      rw [max_eq_right h]
      ext1
      case rate =>
        simp only [updateTime_rate, updateTime_computed, updateTime_dataTimestamp]
        split_ifs <;> [rw [mul_assoc, hk]; rfl]
      case movingCount =>
        simp only [updateTime_movingCount, updateTime_computed, updateTime_dataTimestamp]
        split_ifs <;> [rw [mul_assoc, hk]; rfl]
      case movingSum =>
        simp only [updateTime_movingSum, updateTime_computed, updateTime_dataTimestamp]
        split_ifs <;> [rw [mul_assoc, hk]; rfl]
      case timestamp => simp [updateTime_timestamp, hts, h]
      case histogram =>
        simp only [updateTime_histogram, updateTime_computed, updateTime_config]
        split_ifs
        · rw [List.map_map]
          refine List.map_congr_left fun bin _ => ?_
          simp only [Function.comp, fadedBin, mul_assoc, hk]
        · rfl
      all_goals simp [updateTime_eq]

/-- A block of `update_time` calls comes to the call with its latest time. -/
theorem run_updateTimes (t : Int) (ts : List Int) :
    run (step pf) st ((t :: ts).map .updateTime) = .ok (st.updateTime pf (ts.foldl max t)) := by
  induction ts generalizing t with
  | nil => exact run_singleton_ok.2 rfl
  | cons u ts ih =>
    have hfold := ih (max t u)
    rw [List.map_cons, run_cons_ok] at hfold
    obtain ⟨m, hm, hr⟩ := hfold
    simp only [step, Except.ok.injEq] at hm
    subst hm
    refine run_cons_ok.2 ⟨_, rfl, run_cons_ok.2 ⟨_, rfl, ?_⟩⟩
    rw [updateTime_updateTime]; exact hr

/-! ## The interval data -/

/-- Two objects with the same interval data, and the same base for the next
rate delta. -/
structure SameInterval (a b : Statistics K) : Prop where
  config : a.config = b.config
  value : a.value = b.value
  movingCount : a.movingCount = b.movingCount
  movingSum : a.movingSum = b.movingSum
  rate : a.rate = b.rate
  timestamp : a.timestamp = b.timestamp
  dataTimestamp : a.dataTimestamp = b.dataTimestamp

omit [IsStrictOrderedRing K] in
/-- Interval data do not depend on the histogram. -/
theorem SameInterval.step {a b a' b' : Statistics K} {c : Call K} (h : SameInterval a b)
    (ha : step pf a c = .ok a') (hb : Statistics.step pf b c = .ok b') : SameInterval a' b' := by
  -- With the records taken apart, both sides compute the same terms.
  obtain ⟨_, _, _, _, _, _, _, _, _, _, _, _⟩ := a
  obtain ⟨_, _, _, _, _, _, _, _, _, _, _, _⟩ := b
  obtain ⟨rfl, rfl, rfl, rfl, rfl, rfl, rfl⟩ := h
  cases c with
  | update v t =>
    obtain ⟨_, -, rfl⟩ := update_ok.1 ha
    obtain ⟨_, -, rfl⟩ := update_ok.1 hb
    constructor <;> rfl
  | updateTime t =>
    simp only [Statistics.step, updateTime_eq, Except.ok.injEq] at ha hb
    subst ha hb
    constructor <;> rfl

/-- `update_time` before a call that is not earlier leaves no trace in the
interval data. -/
theorem updateTime_then_step (hM : 0 < st.interval pf) {t₁ : Int} {c : Call K}
    (ht : t₁ ≤ c.timestamp) {a b : Statistics K} (ha : step pf (st.updateTime pf t₁) c = .ok a)
    (hb : step pf st c = .ok b) : SameInterval a b := by
  cases hts : st.computed .timestamp with
  | false =>
    rw [updateTime_of_not_timestamp hts, hb, Except.ok.injEq] at ha
    subst ha; exact ⟨rfl, rfl, rfl, rfl, rfl, rfl, rfl⟩
  | true =>
    cases c with
    | updateTime t =>
      simp only [step, updateTime_updateTime, Except.ok.injEq] at ha hb
      rw [max_eq_right (show t₁ ≤ t from ht)] at ha
      subst ha hb; exact ⟨rfl, rfl, rfl, rfl, rfl, rfl, rfl⟩
    | update v t =>
      change t₁ ≤ t at ht
      have hk := kept_updateTime pf hts ht st.dataTimestamp
      -- At `t₁ = t` the late branch takes the value in, with weight 1 as well.
      have hw : (st.updateTime pf t₁).entryWeight pf t = st.entryWeight pf t := by
        simp only [entryWeight, updateTime_timestamp, updateTime_interval, hts, if_true]
        rcases le_total t₁ st.timestamp with h₁ | h₁
        · rw [max_eq_left h₁]
        · rw [max_eq_right h₁, if_neg (by omega), if_neg (by omega)]
      have hM' : 0 < (st.updateTime pf t₁).interval pf := by rwa [updateTime_interval]
      obtain ⟨_, -, rfl⟩ := update_ok.1 ha
      obtain ⟨_, -, rfl⟩ := update_ok.1 hb
      constructor
      case timestamp =>
        simp [updated, updateTime_timestamp, hts, max_assoc, max_eq_right ht]
      all_goals
        simp only [updated, updateTime_config, updateTime_computed, updateTime_value,
          updateTime_dataTimestamp, updateTime_rate, updateTime_movingCount, updateTime_movingSum,
          updateIntervalData_weighted hM,
          updateIntervalData_weighted hM', hw]
      all_goals
        split_ifs <;> simp only [mul_assoc, hk]

/-- Without a call of `update_time` before a call that is not earlier, a run
leaves the same interval data. -/
theorem run_sameInterval (hM : 0 < pf.clock.count config.movingInterval) (hr : Reachable pf config st)
    {pre post : List (Call K)} {t₁ : Int} {c : Call K} {a b : Statistics K} (ht : t₁ ≤ c.timestamp)
    (ha : run (step pf) st (pre ++ .updateTime t₁ :: c :: post) = .ok a)
    (hb : run (step pf) st (pre ++ c :: post) = .ok b) : SameInterval a b := by
  obtain ⟨m, hpre, hrest⟩ := run_append_ok.1 ha
  obtain ⟨m', hpre', hrest'⟩ := run_append_ok.1 hb
  obtain rfl : m = m' := by simpa [hpre] using hpre'
  obtain ⟨m₁, h₁, hcalls⟩ := run_cons_ok.1 hrest
  simp only [step, Except.ok.injEq] at h₁
  subst h₁
  obtain ⟨m₂, h₂, hpost⟩ := run_cons_ok.1 hcalls
  obtain ⟨m₃, h₃, hpost'⟩ := run_cons_ok.1 hrest'
  have hm : Reachable pf config m := by
    obtain ⟨calls, hcalls⟩ := hr
    exact ⟨calls ++ pre, run_append_ok.2 ⟨st, hcalls, hpre⟩⟩
  have hkept : ∀ a b c a' b', SameInterval a b → step pf a c = .ok a' → step pf b c = .ok b' →
      SameInterval a' b' := fun _ _ _ _ _ h => h.step
  exact run_rel hkept (updateTime_then_step (by rw [hm.interval_eq]; exact hM) ht h₂ h₃) hpost hpost'

/-- **Where fading is path independent.** Delete a call of `update_time` from a
run of a reachable object, where the call that follows is not earlier: both
runs return, and leave the same interval data, exactly if in both of them every
value that comes can be taken in. And a block of `update_time` calls leaves
the bins that the latest of them leaves. -/
theorem fading_path_independent_iff (hM : 0 < pf.clock.count config.movingInterval)
    (hr : Reachable pf config st) :
    (∀ pre t₁ c post, t₁ ≤ c.timestamp →
      ((∃ a b, run (step pf) st (pre ++ .updateTime t₁ :: c :: post) = .ok a ∧
          run (step pf) st (pre ++ c :: post) = .ok b ∧
          a.movingCount = b.movingCount ∧ a.movingSum = b.movingSum ∧ a.rate = b.rate ∧
          a.timestamp = b.timestamp ∧ a.dataTimestamp = b.dataTimestamp) ↔
        Throughout (step pf) st (pre ++ .updateTime t₁ :: c :: post) (fun _ => Returns pf) ∧
          Throughout (step pf) st (pre ++ c :: post) fun _ => Returns pf)) ∧
    (∀ (ts : List Int) (t : Int), t ∈ ts → (∀ u ∈ ts, u ≤ t) →
      ∃ a, run (step pf) st (ts.map .updateTime) = .ok a ∧
        a.histogram = (st.updateTime pf t).histogram) := by
  refine ⟨fun pre t₁ c post ht => ?_, fun ts t hmem hmax => ?_⟩
  · rw [← run_returns_iff hr, ← run_returns_iff hr]
    constructor
    · intro h
      obtain ⟨a, b, ha, hb, -⟩ := h
      exact ⟨⟨a, ha⟩, b, hb⟩
    · intro h
      obtain ⟨⟨a, ha⟩, b, hb⟩ := h
      obtain ⟨-, -, h₁, h₂, h₃, h₄, h₅⟩ := run_sameInterval hM hr ht ha hb
      exact ⟨a, b, ha, hb, h₁, h₂, h₃, h₄, h₅⟩
  · obtain _ | ⟨u, ts⟩ := ts
    · simp at hmem
    have hlast : ts.foldl max u = t := by
      have hmax? := List.max?_eq_some_iff.2 ⟨hmem, hmax⟩
      rwa [List.max?_cons', Option.some.injEq] at hmax?
    exact ⟨_, run_updateTimes u ts, by rw [hlast]⟩

theorem fading_path_independent_sample :
    ∃ a b : Statistics ℚ,
      run (step (.inUnit .nsec)) (initial (sampleConfig 2 (Tag.movingAvg.bit ||| Tag.histogram.bit)))
        ([.update 3 0, .update 5 100] ++ .updateTime 400 :: .update 7 500 :: [.update 1 200]) = .ok a ∧
      run (step (.inUnit .nsec)) (initial (sampleConfig 2 (Tag.movingAvg.bit ||| Tag.histogram.bit)))
        ([.update 3 0, .update 5 100] ++ .update 7 500 :: [.update 1 200]) = .ok b ∧
      a.movingSum = b.movingSum := by
  have hstart : Reachable (.inUnit .nsec) (sampleConfig 2 (Tag.movingAvg.bit ||| Tag.histogram.bit))
      (initial (sampleConfig 2 (Tag.movingAvg.bit ||| Tag.histogram.bit)) : Statistics ℚ) := ⟨[], rfl⟩
  obtain ⟨a, b, ha, hb, -, hsum, -⟩ := ((fading_path_independent_iff (by decide +kernel) hstart).1
    [.update 3 0, .update 5 100] 400 (.update 7 500) [.update 1 200] (by decide)).2
    ⟨throughout_of_meets (by decide +kernel), throughout_of_meets (by decide +kernel)⟩
  exact ⟨a, b, ha, hb, hsum⟩

/-- With a window of a nanosecond and one bin, the value after `2^50`
nanoseconds needs the `update_time` before it: without it, `remove_empty_bins`
reads a bin of none. -/
theorem deletion_out_of_bounds :
    (∃ a, run (step (.inUnit .nsec)) (initial ⟨⟨1, .nsec⟩, 1, Tag.histogram.bit ||| Tag.movingAvg.bit, .sec⟩)
      ([.update (0 : ℚ) 0] ++ .updateTime (2 ^ 50) :: .update 1 (2 ^ 50) :: []) = .ok a) ∧
    run (step (.inUnit .nsec)) (initial ⟨⟨1, .nsec⟩, 1, Tag.histogram.bit ||| Tag.movingAvg.bit, .sec⟩)
      ([.update (0 : ℚ) 0] ++ .update 1 (2 ^ 50) :: []) = .error .undefinedBehaviour := by
  refine ⟨exists_ok_of_toBool ?_, ?_⟩
  · decide +kernel
  · decide +kernel

end Handystats.Statistics
