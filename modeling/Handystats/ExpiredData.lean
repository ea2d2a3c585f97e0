/-
Expired data: when the window has moved past every value passed to `update`,
the interval data are 0.

Fading gives 0 to data exactly one `moving_interval` old, but a late value of
that age is let in: `update_interval_data` compares with `<` where
`shift_interval_data` has `<=`. And data from before the default time point
are stamped with it, for `m_data_timestamp` starts there, so they outlive their
window. `InWindow` excludes the two, and `Expiry` is what a run without them
keeps.
-/
import Handystats.StaleUpdate

namespace Handystats

variable {K : Type}

/-- The timestamps passed to `update`. -/
def Call.updateTimestamps (calls : List (Call K)) : List Int :=
  calls.filterMap fun
    | .update _ t => some t
    | .updateTime _ => none

@[simp] theorem Call.updateTimestamps_concat_update (calls : List (Call K)) (v : K) (t : Int) :
    Call.updateTimestamps (calls ++ [.update v t]) = Call.updateTimestamps calls ++ [t] := by
  simp [Call.updateTimestamps]

@[simp] theorem Call.updateTimestamps_concat_updateTime (calls : List (Call K)) (t : Int) :
    Call.updateTimestamps (calls ++ [.updateTime t]) = Call.updateTimestamps calls := by
  simp [Call.updateTimestamps]

namespace Statistics

open Runs Fading

variable [Field K] [LinearOrder K]
variable {pf : Platform K} {config : StatisticsConfig} {st st' : Statistics K} {calls : List (Call K)}

/-! ## The interval data that are not computed -/

/-- All interval data are 0. -/
def NoData (st : Statistics K) : Prop := st.movingCount = 0 ∧ st.movingSum = 0 ∧ st.rate = 0

/-- The interval data that are not computed are 0. -/
structure UnusedZero (st : Statistics K) : Prop where
  movingCount : st.computed .movingCount = false → st.movingCount = 0
  movingSum : st.computed .movingSum = false → st.movingSum = 0
  rate : st.computed .rate = false → st.rate = 0

theorem step_unusedZero (h : UnusedZero st) {c : Call K} (hs : step pf st c = .ok st') :
    UnusedZero st' := by
  cases c with
  | update v t =>
    obtain ⟨hist, -, rfl⟩ := update_ok.1 hs
    refine ⟨fun hc => ?_, fun hc => ?_, fun hc => ?_⟩ <;> change st.computed _ = false at hc
    · exact (if_neg (by simp [hc])).trans (h.movingCount hc)
    · exact (if_neg (by simp [hc])).trans (h.movingSum hc)
    · exact (if_neg (by simp [hc])).trans (h.rate hc)
  | updateTime t =>
    simp only [step, Except.ok.injEq] at hs
    subst hs
    refine ⟨fun hc => ?_, fun hc => ?_, fun hc => ?_⟩ <;> rw [updateTime_computed] at hc
    · rw [updateTime_movingCount, hc]; exact h.movingCount hc
    · rw [updateTime_movingSum, hc]; exact h.movingSum hc
    · rw [updateTime_rate, hc]; exact h.rate hc

theorem Reachable.unusedZero (h : Reachable pf config st) : UnusedZero st :=
  h.inv ⟨fun _ => rfl, fun _ => rfl, fun _ => rfl⟩ fun _ _ _ hI hs => step_unusedZero hI hs

omit [LinearOrder K] in
theorem UnusedZero.noData (h : UnusedZero st) (hzero : st.ZeroData) : st.NoData := by
  refine ⟨?_, ?_, ?_⟩
  · cases hc : st.computed .movingCount with
    | false => exact h.movingCount hc
    | true => exact hzero.1 hc
  · cases hc : st.computed .movingSum with
    | false => exact h.movingSum hc
    | true => exact hzero.2.1 hc
  · cases hc : st.computed .rate with
    | false => exact h.rate hc
    | true => exact hzero.2.2 hc

/-! ## Runs without the two exceptions -/

/-- Some interval data are computed. -/
def HasData (config : StatisticsConfig) : Prop :=
  config.computed .movingCount = true ∨ config.computed .movingSum = true ∨ config.computed .rate = true

instance (config : StatisticsConfig) : Decidable (HasData config) :=
  inferInstanceAs (Decidable (_ ∨ _ ∨ _))

/-- The call does not let interval data in that are exactly one interval old
where nothing is newer, nor any from before the default time point where nothing
later was passed. -/
def InWindow (pf : Platform K) (calls : List (Call K)) (st : Statistics K) : Call K → Prop
  | .update _ t =>
    HasData st.config →
      (t = st.timestamp - st.interval pf →
        ∃ u ∈ Call.updateTimestamps calls, st.timestamp - st.interval pf < u) ∧
      (st.timestamp - st.interval pf ≤ t → t < timePointZero →
        ∃ u ∈ Call.updateTimestamps calls, timePointZero ≤ u)
  | .updateTime _ => True

/-- What the data timestamp says of the values passed: it is not older than
any and, once there is one since the default time point, it is one of theirs;
and data as old as the window are 0. -/
structure Expiry (pf : Platform K) (calls : List (Call K)) (st : Statistics K) : Prop where
  newest : ∀ t ∈ Call.updateTimestamps calls, t ≤ st.dataTimestamp
  stamped : (∃ u ∈ Call.updateTimestamps calls, timePointZero ≤ u) →
    st.dataTimestamp ∈ Call.updateTimestamps calls
  before : (∀ u ∈ Call.updateTimestamps calls, u < timePointZero) →
    st.dataTimestamp = timePointZero ∧ st.ZeroData
  expired : st.dataTimestamp + st.interval pf ≤ st.timestamp → st.ZeroData

theorem expiry_initial (hM : 0 < pf.clock.count config.movingInterval) :
    Expiry pf [] (initial config : Statistics K) := by
  constructor
  · intro t ht; simp [Call.updateTimestamps] at ht
  · intro ⟨u, hu, _⟩; simp [Call.updateTimestamps] at hu
  · intro _; exact ⟨rfl, fun _ => rfl, fun _ => rfl, fun _ => rfl⟩
  · intro h
    change timePointZero + pf.clock.count config.movingInterval ≤ timePointZero at h
    omega

omit [Field K] [LinearOrder K] in
theorem HasData.timestamp (h : HasData config) : config.computed .timestamp = true := by
  rcases h with h | h | h
  all_goals exact StatisticsConfig.computed_timestamp h (by simp)

theorem Expiry.updated (hM : 0 < st.interval pf) (hdata : HasData st.config) (h : Expiry pf calls st) {v : K}
    {t : Int} (hin : InWindow pf calls st (.update v t)) (hist : Histogram K) :
    Expiry pf (calls ++ [.update v t]) (st.updated pf v t hist) := by
  obtain ⟨hboundary, hepoch⟩ := hin hdata
  have hts : st.computed .timestamp = true := hdata.timestamp
  have hD : (st.updated pf v t hist).dataTimestamp = max st.dataTimestamp t := if_pos hts
  have hT : (st.updated pf v t hist).timestamp = max st.timestamp t := if_pos hts
  constructor
  · intro u hu
    rw [Call.updateTimestamps_concat_update, List.mem_append, List.mem_singleton] at hu
    rw [hD]
    cases hu with
    | inl hu => exact (h.newest u hu).trans (le_max_left _ _)
    | inr hu => exact hu ▸ le_max_right _ _
  · intro ⟨u, hu, hu0⟩
    rw [Call.updateTimestamps_concat_update, List.mem_append, List.mem_singleton] at *
    rw [hD]
    by_cases hsome : ∃ u ∈ Call.updateTimestamps calls, timePointZero ≤ u
    · rcases le_total t st.dataTimestamp with ht | ht
      · rw [max_eq_left ht]; exact .inl (h.stamped hsome)
      · exact .inr (max_eq_right ht)
    · have hneg : ∀ u ∈ Call.updateTimestamps calls, u < timePointZero := by
        intro w hw
        by_contra hw0
        exact hsome ⟨w, hw, not_lt.1 hw0⟩
      have hut : u = t := by
        cases hu with
        | inl hu => exact absurd (hneg u hu) (not_lt.2 hu0)
        | inr hu => exact hu
      rw [(h.before hneg).1, max_eq_right (hut ▸ hu0)]
      exact .inr rfl
  · intro hneg
    rw [Call.updateTimestamps_concat_update] at hneg
    have ht : t < timePointZero := hneg t (by simp)
    have hpre : ∀ u ∈ Call.updateTimestamps calls, u < timePointZero :=
      fun u hu => hneg u (by simp [hu])
    obtain ⟨hD₀, hzero⟩ := h.before hpre
    -- The value is from before the default time point: it must be too old.
    have hstale : t < st.timestamp - st.interval pf := by
      by_contra hc
      obtain ⟨u, hu, hu0⟩ := hepoch (not_lt.1 hc) ht
      have := hpre u hu
      omega
    exact ⟨by rw [hD, hD₀]; omega, hzero.updated hM hstale v hist⟩
  · intro hexp
    rw [hD, hT, updated_interval] at hexp
    -- The time did not move, so it is the old data that are as old as the window.
    have hold : st.dataTimestamp + st.interval pf ≤ st.timestamp := by omega
    have hne : t ≠ st.timestamp - st.interval pf := by
      intro ht
      obtain ⟨u, hu, hnew⟩ := hboundary ht
      have := h.newest u hu
      omega
    exact (h.expired hold).updated hM (by omega) v hist

theorem Expiry.updateTime (hts : st.computed .timestamp = true) (h : Expiry pf calls st) (t : Int) :
    Expiry pf (calls ++ [.updateTime t]) (st.updateTime pf t) := by
  constructor
  · rw [Call.updateTimestamps_concat_updateTime, updateTime_dataTimestamp]
    exact h.newest
  · rw [Call.updateTimestamps_concat_updateTime, updateTime_dataTimestamp]
    exact h.stamped
  · rw [Call.updateTimestamps_concat_updateTime, updateTime_dataTimestamp]
    intro hneg
    exact ⟨(h.before hneg).1, (h.before hneg).2.updateTime t⟩
  · intro hexp
    rw [updateTime_dataTimestamp, updateTime_interval, updateTime_timestamp, if_pos hts] at hexp
    rcases le_or_gt t st.timestamp with ht | ht
    · exact (h.expired (by omega)).updateTime t
    · exact zeroData_of_expired ht (by omega)

theorem step_expiry (hM : 0 < st.interval pf) (hdata : HasData st.config) (h : Expiry pf calls st)
    {c : Call K} (hin : InWindow pf calls st c) (hs : step pf st c = .ok st') :
    Expiry pf (calls ++ [c]) st' := by
  cases c with
  | update v t =>
    obtain ⟨hist, -, rfl⟩ := update_ok.1 hs
    exact h.updated hM hdata hin hist
  | updateTime t =>
    simp only [step, Except.ok.injEq] at hs
    subst hs
    exact h.updateTime hdata.timestamp t

theorem RunsTo.expiry (hM : 0 < pf.clock.count config.movingInterval)
    (hdata : HasData config) (h : RunsTo pf config calls st)
    (hin : Throughout (step pf) (initial config) calls (InWindow pf)) : Expiry pf calls st := by
  have hinv := run_inv_throughout (I := fun calls st => st.config = config ∧ Expiry pf calls st) ?_
    ⟨rfl, expiry_initial hM⟩ h hin
  · exact hinv.2
  · intro calls s c s' ⟨hcfg, hI⟩ hc hs
    exact ⟨(step_config hs).trans hcfg,
      step_expiry (by rw [interval, hcfg]; exact hM) (hcfg ▸ hdata) hI hc hs⟩

/-- The values passed are all as old as the window, or older. -/
def AllExpired (pf : Platform K) (calls : List (Call K)) (st : Statistics K) : Prop :=
  ∀ t ∈ Call.updateTimestamps calls, t ≤ st.timestamp - st.interval pf

/-- **Expired data are gone**, in every run that lets in no interval data exactly
one interval old, where nothing is newer, and none from before the default time
point, where nothing later was passed. -/
theorem expired_data_gone (hM : 0 < pf.clock.count config.movingInterval)
    (h : RunsTo pf config calls st)
    (hin : Throughout (step pf) (initial config) calls (InWindow pf)) (hold : AllExpired pf calls st) :
    st.NoData := by
  refine h.reachable.unusedZero.noData ?_
  by_cases hdata : HasData config
  · have hI := h.expiry hM hdata hin
    by_cases hsome : ∃ u ∈ Call.updateTimestamps calls, timePointZero ≤ u
    · have := hold _ (hI.stamped hsome)
      exact hI.expired (by omega)
    · refine (hI.before fun u hu => ?_).2
      by_contra hu0
      exact hsome ⟨u, hu, not_lt.1 hu0⟩
  · have hcfg := h.reachable.config_eq
    simp only [HasData, not_or] at hdata
    obtain ⟨hcount, hsum, hrate⟩ := hdata
    refine ⟨fun hc => absurd ?_ hcount, fun hc => absurd ?_ hsum, fun hc => absurd ?_ hrate⟩
    all_goals rwa [computed, hcfg] at hc

theorem expired_data_gone_sample :
    ∃ st : Statistics ℚ,
      RunsTo (.inUnit .nsec) (sampleConfig 0 Tag.movingAvg.bit) [.update 3 0, .updateTime 2000] st ∧
      st.NoData := by
  obtain ⟨st, h⟩ := exists_runsTo (K := ℚ) (.inUnit .nsec)
    (show (sampleConfig 0 Tag.movingAvg.bit).computed .histogram = false by decide +kernel)
    [.update 3 0, .updateTime 2000]
  have hT : st.timestamp = 2000 := by
    obtain ⟨m, hm, hlast⟩ := run_cons_ok.1 h
    rw [show m = (initial (sampleConfig 0 Tag.movingAvg.bit)).updated (.inUnit .nsec) 3 0 [] from
      Except.ok.inj (hm.symm.trans (update_of_not_histogram (.inr rfl) 3 0))] at hlast
    rw [← Except.ok.inj (run_singleton_ok.1 hlast)]
    decide +kernel
  have hin : Throughout (step (.inUnit .nsec)) (initial (sampleConfig 0 Tag.movingAvg.bit))
      [.update (3 : ℚ) 0, .updateTime 2000] (InWindow (.inUnit .nsec)) := by
    refine throughout_cons (fun _ => ⟨fun ht => ?_, fun _ ht => ?_⟩) fun _ _ =>
      throughout_cons trivial fun _ _ => throughout_nil
    · exact absurd ht (by decide +kernel)
    · exact absurd ht (by decide)
  refine ⟨st, h, expired_data_gone (by decide +kernel) h hin fun t ht => ?_⟩
  have ht0 : t = 0 := by simpa [Call.updateTimestamps] using ht
  have hM : st.interval (.inUnit .nsec) = 1000 := by
    rw [h.reachable.interval_eq]; decide +kernel
  omega

/-- A late value exactly one interval old is counted, and nothing newer was
ever passed. -/
theorem boundary_value_counted :
    ∃ st : Statistics ℚ,
      RunsTo (.inUnit .nsec) (sampleConfig 0 Tag.movingAvg.bit) [.updateTime 5000, .update 3 4000] st ∧
      AllExpired (.inUnit .nsec) [.updateTime 5000, .update (3 : ℚ) 4000] st ∧ ¬ st.NoData := by
  let st₁ : Statistics ℚ := (initial (sampleConfig 0 Tag.movingAvg.bit)).updateTime (.inUnit .nsec) 5000
  let st : Statistics ℚ := st₁.updated (.inUnit .nsec) 3 4000 st₁.histogram
  refine ⟨st, run_cons_ok.2 ⟨st₁, rfl, run_singleton_ok.2 (update_of_not_histogram (.inr rfl) 3 4000)⟩,
    fun t ht => ?_, fun hno => ?_⟩
  · have ht4 : t = 4000 := by simpa [Call.updateTimestamps] using ht
    rw [ht4]
    decide +kernel
  · exact absurd hno.1 (by decide +kernel)

/-- A value from before the default time point outlives its window. -/
example : ((run (step (.inUnit .nsec)) (initial (sampleConfig 0 Tag.movingAvg.bit))
    [.update (3 : ℚ) (-5), .updateTime 995]).map Statistics.movingCount) = .ok (1 / 200) := by
  decide +kernel

end Statistics

end Handystats
