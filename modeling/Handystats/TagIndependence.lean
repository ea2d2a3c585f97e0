/-
Two objects that differ in their tags only.

`computed` closes the tags under what they are made from, and every field is
written in blocks of its own tag. So the fields whose tag both objects compute
go the same way in both (`Agree`): what such a field is made from, both compute
too. What can differ is whether a call returns at all, for only an object that
maintains a histogram reads its bins.
-/
import Handystats.HistogramBounds
import Handystats.Quantile

namespace Handystats

/-- The configurations agree but for the tags. -/
structure SameButTags (c c' : StatisticsConfig) : Prop where
  movingInterval : c.movingInterval = c'.movingInterval
  histogramBins : c.histogramBins = c'.histogramBins
  rateUnit : c.rateUnit = c'.rateUnit

namespace Statistics

open Runs

/-! ## `get<tag>` -/

/-- `statistics::result_type`; the `quantile_extractor` is taken for what it
answers to `at`. -/
def ResultType (K : Type) : Tag → Type
  | .count => Nat
  | .histogram => Histogram K
  | .quantile => K → Except Fault K
  | .timestamp => Int
  | _ => K

variable {K : Type} [Field K] [LinearOrder K]

/-- `get<tag>`. -/
def getTag (pf : Platform K) (root log : K → K) (st : Statistics K) :
    (t : Tag) → Except Fault (ResultType K t)
  | .value => st.getValue
  | .min => st.getMin
  | .max => st.getMax
  | .count => st.getCount
  | .sum => st.getSum
  | .avg => st.getAvg
  | .movingCount => st.getMovingCount
  | .movingSum => st.getMovingSum
  | .movingAvg => st.getMovingAvg
  | .histogram => st.getHistogram
  | .quantile => st.get .quantile (quantileAt root (some st))
  | .timestamp => st.getTimestamp
  | .rate => getRate (K := K) pf st
  | .entropy => getEntropy (K := K) log st

variable {pf : Platform K} {config config' : StatisticsConfig} {a b a' b' : Statistics K}

/-! ## What the formulas read -/

section Congr

variable (hT : a.timestamp = b.timestamp) (hM : a.interval pf = b.interval pf)

include hT hM

theorem kept_congr (D t : Int) : a.kept pf D t = b.kept pf D t := by
  rw [kept, kept, hT, hM]

theorem updateIntervalData_congr (data : K) (D : Int) (value : K) (t : Int) :
    a.updateIntervalData pf data D value t = b.updateIntervalData pf data D value t := by
  unfold updateIntervalData
  rw [shiftIntervalData_eq, shiftIntervalData_eq, hT, hM]

theorem shiftHistogram_congr (hhist : a.histogram = b.histogram)
    (hbins : a.config.histogramBins = b.config.histogramBins) (t : Int) :
    a.shiftHistogram pf t = b.shiftHistogram pf t := by
  simp only [shiftHistogram, shiftIntervalData_eq, hhist, hbins, hT, hM]

theorem updateHistogram_congr (hhist : a.histogram = b.histogram)
    (hbins : a.config.histogramBins = b.config.histogramBins) (v : K) (t : Int) :
    a.updateHistogram pf v t = b.updateHistogram pf v t := by
  have hshift : a.insertAndShift pf v t = b.insertAndShift pf v t := by
    let ins := b.histogram.insertIdx (pf.lowerBound b.histogram ⟨v, 1, t⟩) ⟨v, 1, t⟩
    have hins : a.insertAndShift pf v t = shiftHistogram pf { a with histogram := ins } t := by
      rw [insertAndShift, hhist]
    rw [hins]
    exact shiftHistogram_congr (a := { a with histogram := ins }) (b := { b with histogram := ins })
      hT hM rfl hbins t
  rw [updateHistogram, updateHistogram, hbins, hhist, hshift]

end Congr

/-! ## Agreement -/

/-- Both objects compute the tag. -/
def Both (a b : Statistics K) (t : Tag) : Prop := a.computed t = true ∧ b.computed t = true

omit [Field K] [LinearOrder K] in
/-- What has to do with the window needs the timestamps. -/
theorem Both.timestamp {t : Tag} (h : Both a b t)
    (ht : t = .movingCount ∨ t = .movingSum ∨ t = .movingAvg ∨ t = .histogram ∨ t = .quantile ∨
      t = .rate) : Both a b .timestamp :=
  ⟨StatisticsConfig.computed_timestamp h.1 ht, StatisticsConfig.computed_timestamp h.2 ht⟩

omit [Field K] [LinearOrder K] in
/-- What a tag is made from, both compute as well. -/
theorem Both.source {t t' : Tag} (h : Both a b t)
    (ht : ∀ c : StatisticsConfig, c.computed t = true → c.computed t' = true) : Both a b t' :=
  ⟨ht _ h.1, ht _ h.2⟩

omit [Field K] [LinearOrder K] in
theorem get_both {t : Tag} {α : Type} {x y : α} (h : Both a b t) (hxy : x = y) :
    a.get t x = b.get t y := by
  rw [get_of_computed h.1, get_of_computed h.2, hxy]

omit [Field K] [LinearOrder K] in
theorem ite_both {t : Tag} {α : Type} {x x' y y' : α} (h : Both a b t) (hx : x = x') :
    (if a.computed t = true then x else y) = if b.computed t = true then x' else y' := by
  rw [if_pos h.1, if_pos h.2, hx]

/-- The fields whose tag both compute are the same. -/
structure Agree (a b : Statistics K) : Prop where
  config : SameButTags a.config b.config
  value : Both a b .value → a.value = b.value
  minValue : Both a b .min → a.minValue = b.minValue
  maxValue : Both a b .max → a.maxValue = b.maxValue
  sum : Both a b .sum → a.sum = b.sum
  count : Both a b .count → a.count = b.count
  movingCount : Both a b .movingCount → a.movingCount = b.movingCount
  movingSum : Both a b .movingSum → a.movingSum = b.movingSum
  histogram : Both a b .histogram → a.histogram = b.histogram
  timestamp : Both a b .timestamp → a.timestamp = b.timestamp
  rate : Both a b .rate → a.rate = b.rate
  dataTimestamp : Both a b .timestamp → a.dataTimestamp = b.dataTimestamp

namespace Agree

omit [Field K] in
theorem interval (h : Agree a b) : a.interval pf = b.interval pf := by
  rw [Statistics.interval, Statistics.interval, h.config.movingInterval]

omit [LinearOrder K] in
theorem initial (h : SameButTags config config') :
    Agree (initial config : Statistics K) (Statistics.initial config') := by
  constructor
  case config => exact h
  all_goals exact fun _ => rfl

/-- The interval data after `update`, of the same data and the same value. -/
theorem intervalData (h : Agree a b) (hts : Both a b .timestamp) {data data' value value' : K}
    (hdata : data = data') (hvalue : value = value') (t : Int) :
    a.updateIntervalData pf data a.dataTimestamp value t =
      b.updateIntervalData pf data' b.dataTimestamp value' t := by
  rw [hdata, hvalue, h.dataTimestamp hts]
  exact updateIntervalData_congr (h.timestamp hts) h.interval _ _ _ _

theorem faded (h : Agree a b) (hts : Both a b .timestamp) {data data' : K} (hdata : data = data')
    (t : Int) : data * a.kept pf a.dataTimestamp t = data' * b.kept pf b.dataTimestamp t := by
  rw [hdata, h.dataTimestamp hts, kept_congr (h.timestamp hts) h.interval]

theorem updated (h : Agree a b) {v : K} {t : Int} {hist hist' : Histogram K}
    (hhist : Both a b .histogram → hist = hist') :
    Agree (a.updated pf v t hist) (b.updated pf v t hist') := by
  constructor
  case config => exact h.config
  case histogram => exact hhist
  all_goals
    intro hc
    change Both a b _ at hc
    refine ite_both hc ?_
  · rfl
  · rw [h.minValue hc]
  · rw [h.maxValue hc]
  · rw [h.sum hc]
  · rw [h.count hc]
  · exact h.intervalData (hc.timestamp (by simp)) (h.movingCount hc) rfl t
  · exact h.intervalData (hc.timestamp (by simp)) (h.movingSum hc) rfl t
  · rw [h.timestamp hc]
  · have hvalue := h.value (hc.source (by simp +contextual))
    exact h.intervalData (hc.timestamp (by simp)) (h.rate hc) (by rw [hvalue]) t
  · rw [h.dataTimestamp hc]

theorem updateTime (h : Agree a b) (t : Int) : Agree (a.updateTime pf t) (b.updateTime pf t) := by
  rw [updateTime_eq, updateTime_eq]
  constructor
  case config => exact h.config
  case value => exact h.value
  case minValue => exact h.minValue
  case maxValue => exact h.maxValue
  case sum => exact h.sum
  case count => exact h.count
  case dataTimestamp => exact h.dataTimestamp
  all_goals
    intro hc
    change Both a b _ at hc
    refine ite_both hc ?_
  · exact h.faded (hc.timestamp (by simp)) (h.movingCount hc) t
  · exact h.faded (hc.timestamp (by simp)) (h.movingSum hc) t
  · have hts := hc.timestamp (by simp)
    exact shiftHistogram_congr (h.timestamp hts) h.interval (h.histogram hc) h.config.histogramBins t
  · rw [h.timestamp hc]
  · exact h.faded (hc.timestamp (by simp)) (h.rate hc) t

theorem updateHistogram (h : Agree a b) (hc : Both a b .histogram) (v : K) (t : Int) :
    a.updateHistogram pf v t = b.updateHistogram pf v t := by
  have hts := hc.timestamp (by simp)
  exact updateHistogram_congr (h.timestamp hts) h.interval (h.histogram hc) h.config.histogramBins v t

theorem step (h : Agree a b) {c : Call K} (ha : Statistics.step pf a c = .ok a')
    (hb : Statistics.step pf b c = .ok b') : Agree a' b' := by
  cases c with
  | update v t =>
    obtain ⟨hist, hhist, rfl⟩ := update_ok.1 ha
    obtain ⟨hist', hhist', rfl⟩ := update_ok.1 hb
    refine h.updated fun hc => ?_
    rw [if_pos hc.1, h.updateHistogram hc] at hhist
    rw [if_pos hc.2] at hhist'
    exact Except.ok.inj (hhist.symm.trans hhist')
  | updateTime t =>
    simp only [Statistics.step, Except.ok.injEq] at ha hb
    subst ha hb
    exact h.updateTime t

/-- `get<tag>` reads nothing but fields that both compute. -/
theorem getTag (h : Agree a b) (root log : K → K) {t : Tag} (hc : Both a b t) :
    a.getTag pf root log t = b.getTag pf root log t := by
  cases t with
  | value => exact get_both hc (h.value hc)
  | min => exact get_both hc (h.minValue hc)
  | max => exact get_both hc (h.maxValue hc)
  | count => exact get_both hc (h.count hc)
  | sum => exact get_both hc (h.sum hc)
  | avg =>
    have hsum := h.sum (hc.source (by simp +contextual))
    have hcount := h.count (hc.source (by simp +contextual))
    exact get_both hc (by rw [hsum, hcount])
  | movingCount => exact get_both hc (h.movingCount hc)
  | movingSum => exact get_both hc (h.movingSum hc)
  | movingAvg =>
    have hsum := h.movingSum (hc.source (by simp +contextual))
    have hcount := h.movingCount (hc.source (by simp +contextual))
    exact get_both hc (by rw [hsum, hcount])
  | histogram => exact get_both hc (h.histogram hc)
  | quantile =>
    have hhist := h.histogram (hc.source (by simp +contextual [StatisticsConfig.computed_histogram]))
    have hat : quantileAt root (some a) = quantileAt root (some b) := by
      funext probability
      simp only [quantileAt, Tolerances.quantileAt, hhist]
    exact get_both hc hat
  | timestamp => exact get_both hc (h.timestamp hc)
  | rate =>
    exact get_both hc (by rw [h.rate hc, h.config.movingInterval, h.config.rateUnit])
  | entropy =>
    have hhist := h.histogram (hc.source (by simp +contextual [StatisticsConfig.computed_histogram]))
    exact get_both hc (by rw [hhist])

end Agree

/-! ## Two runs -/

theorem RunsTo.agree (hsame : SameButTags config config') {calls : List (Call K)}
    (h : RunsTo pf config calls a) (h' : RunsTo pf config' calls b) : Agree a b :=
  run_rel (fun _ _ _ _ _ hR ha hb => Agree.step hR ha hb) (Agree.initial hsame) h h'

/-- Where both maintain the histogram, or neither does, a call returns for both
or fails for both in one way. -/
theorem Agree.step_lockstep (h : Agree a b) (hhist : a.computed .histogram = b.computed .histogram)
    (c : Call K) : Lockstep Agree (Statistics.step pf a c) (Statistics.step pf b c) := by
  cases c with
  | updateTime t => exact .inr ⟨_, _, rfl, rfl, h.updateTime t⟩
  | update v t =>
    cases ha : a.computed .histogram with
    | false =>
      have hb : b.computed .histogram = false := by rw [← hhist, ha]
      have hagree : Agree (a.updated pf v t a.histogram) (b.updated pf v t b.histogram) := by
        refine h.updated fun hc => ?_
        exact absurd (ha.symm.trans hc.1) Bool.false_ne_true
      exact .inr ⟨_, _, update_of_not_histogram (.inl ha) v t, update_of_not_histogram (.inl hb) v t, hagree⟩
    | true =>
      have hb : b.computed .histogram = true := by rw [← hhist, ha]
      have hsame : a.updateHistogram pf v t = b.updateHistogram pf v t := h.updateHistogram ⟨ha, hb⟩ v t
      simp only [Statistics.step, update, ha, hb, if_true, hsame]
      cases b.updateHistogram pf v t with
      | error e => exact .inl ⟨e, rfl, rfl⟩
      | ok hist => exact .inr ⟨_, _, rfl, rfl, h.updated fun _ => rfl⟩

theorem run_agree (hsame : SameButTags config config')
    (hhist : config.computed .histogram = config'.computed .histogram) (calls : List (Call K)) :
    Lockstep Agree (run (step pf) (initial config) calls) (run (step pf) (initial config') calls) := by
  have hlock : Lockstep (fun a b => Agree a b ∧ a.config = config ∧ b.config = config')
      (run (step pf) (initial config) calls) (run (step pf) (initial config') calls) := by
    refine run_lockstep (R := fun _ a b => Agree a b ∧ a.config = config ∧ b.config = config') ?_
      ⟨Agree.initial hsame, rfl, rfl⟩
    intro c _ a b ⟨hR, ha, hb⟩
    have hcomputed : a.computed .histogram = b.computed .histogram := by rwa [computed, computed, ha, hb]
    have hstep : Lockstep Agree (step pf a c) (step pf b c) := hR.step_lockstep hcomputed c
    rcases hstep with hfault | ⟨a', b', hsa, hsb, hR'⟩
    · exact .inl hfault
    · exact .inr ⟨a', b', hsa, hsb, hR', (step_config hsa).trans ha, (step_config hsb).trans hb⟩
  rcases hlock with hfault | ⟨a, b, ha, hb, hR, -⟩
  · exact .inl hfault
  · exact .inr ⟨a, b, ha, hb, hR⟩

/-- The calls return under both configurations or under neither, and `get<t>`
answers alike for each tag `t` that both compute. -/
def AnswersAlike (pf : Platform K) (root log : K → K) (config config' : StatisticsConfig)
    (calls : List (Call K)) : Prop :=
  ((∃ a, RunsTo pf config calls a) ↔ ∃ b, RunsTo pf config' calls b) ∧
    ∀ a b, RunsTo pf config calls a → RunsTo pf config' calls b →
      ∀ t, config.computed t = true → config'.computed t = true →
        a.getTag pf root log t = b.getTag pf root log t

theorem answersAlike (pf : Platform K) (root log : K → K) (hsame : SameButTags config config')
    {calls : List (Call K)} (h : (∃ a, RunsTo pf config calls a) ↔ ∃ b, RunsTo pf config' calls b) :
    AnswersAlike pf root log config config' calls := by
  refine ⟨h, fun a b ha hb t ht ht' => (ha.agree hsame hb).getTag root log ⟨?_, ?_⟩⟩
  · rwa [computed, ha.reachable.config_eq]
  · rwa [computed, hb.reachable.config_eq]

variable [IsStrictOrderedRing K]

/-- **Where tags do not interfere.** Two objects that differ in their tags only
answer alike at every point of the same calls exactly if both maintain the
histogram, or neither does, or every value that comes can be taken in by both. -/
theorem tags_do_not_interfere_iff (pf : Platform K) (hsame : SameButTags config config')
    (root log : K → K) (calls : List (Call K)) :
    (∀ pre, pre <+: calls → AnswersAlike pf root log config config' pre) ↔
      config.computed .histogram = config'.computed .histogram ∨
      Throughout (step pf) (initial config) calls (fun _ => Returns pf) ∧
        Throughout (step pf) (initial config') calls fun _ => Returns pf := by
  have hreturns : ∀ (config : StatisticsConfig) calls, (∃ a, RunsTo pf config calls a) ↔
      Throughout (step pf) (initial config : Statistics K) calls fun _ => Returns pf :=
    fun config calls => run_returns_iff ⟨[], rfl⟩ calls
  constructor
  · intro h
    obtain ⟨halike, -⟩ := h calls (List.prefix_refl _)
    -- Without a histogram every call returns, and so it has to under the other tags.
    cases hhist : config.computed .histogram with
    | false =>
      obtain ⟨a, ha⟩ := exists_runsTo (K := K) pf hhist calls
      exact .inr ⟨(hreturns _ _).1 ⟨a, ha⟩, (hreturns _ _).1 (halike.1 ⟨a, ha⟩)⟩
    | true =>
      cases hhist' : config'.computed .histogram with
      | false =>
        obtain ⟨b, hb⟩ := exists_runsTo (K := K) pf hhist' calls
        exact .inr ⟨(hreturns _ _).1 (halike.2 ⟨b, hb⟩), (hreturns _ _).1 ⟨b, hb⟩⟩
      | true => exact .inl rfl
  · intro h pre hpre
    obtain ⟨post, rfl⟩ := hpre
    refine answersAlike pf root log hsame ?_
    rcases h with hhist | ⟨ha, hb⟩
    · have hlock : Lockstep Agree (run (step pf) (initial config) pre)
          (run (step pf) (initial config') pre) := run_agree hsame hhist pre
      rcases hlock with ⟨e, ha, hb⟩ | ⟨a, b, ha, hb, -⟩
      · simp [RunsTo, ha, hb]
      · exact iff_of_true ⟨a, ha⟩ ⟨b, hb⟩
    · exact iff_of_true ((hreturns _ _).2 ha.of_append) ((hreturns _ _).2 hb.of_append)

theorem tags_do_not_interfere_sample :
    AnswersAlike (.inUnit .nsec) id id (sampleConfig 2 Tag.movingAvg.bit)
      (sampleConfig 2 (Tag.movingAvg.bit ||| Tag.histogram.bit)) [.update (3 : ℚ) 0, .update 5 400, .update 4 900] := by
  have hsame : SameButTags (sampleConfig 2 Tag.movingAvg.bit)
      (sampleConfig 2 (Tag.movingAvg.bit ||| Tag.histogram.bit)) := ⟨rfl, rfl, rfl⟩
  have hboth := (tags_do_not_interfere_iff (.inUnit .nsec) hsame id id
    [.update (3 : ℚ) 0, .update 5 400, .update 4 900]).2
    (.inr ⟨throughout_of_meets (by decide +kernel), throughout_of_meets (by decide +kernel)⟩)
  exact hboth _ (List.prefix_refl _)

/-- With a window of a nanosecond and one bin, the tag for the histogram decides
whether the value after `2^50` nanoseconds is taken in. -/
theorem histogram_tag_interferes :
    (∃ a : Statistics ℚ, RunsTo (.inUnit .nsec) ⟨⟨1, .nsec⟩, 1, Tag.value.bit, .sec⟩
      [.update 0 0, .update 1 (2 ^ 50)] a ∧ a.getValue = .ok 1) ∧
    run (step (.inUnit .nsec)) (initial ⟨⟨1, .nsec⟩, 1, Tag.value.bit ||| Tag.histogram.bit, .sec⟩)
      [.update (0 : ℚ) 0, .update 1 (2 ^ 50)] = .error .undefinedBehaviour ∧
    ¬ AnswersAlike (.inUnit .nsec) id id ⟨⟨1, .nsec⟩, 1, Tag.value.bit, .sec⟩
      ⟨⟨1, .nsec⟩, 1, Tag.value.bit ||| Tag.histogram.bit, .sec⟩ [.update (0 : ℚ) 0, .update 1 (2 ^ 50)] := by
  have hvalue : ((run (step (.inUnit .nsec)) (initial ⟨⟨1, .nsec⟩, 1, Tag.value.bit, .sec⟩)
      [.update (0 : ℚ) 0, .update 1 (2 ^ 50)]) >>= getValue) = .ok 1 := by decide +kernel
  have hfails : run (step (.inUnit .nsec)) (initial ⟨⟨1, .nsec⟩, 1, Tag.value.bit ||| Tag.histogram.bit, .sec⟩)
      [.update (0 : ℚ) 0, .update 1 (2 ^ 50)] = .error .undefinedBehaviour := by decide +kernel
  obtain ⟨a, ha, hget⟩ := bind_eq_ok.1 hvalue
  refine ⟨⟨a, ha, hget⟩, hfails, fun halike => ?_⟩
  obtain ⟨b, hb⟩ := halike.1.1 ⟨a, ha⟩
  rw [RunsTo, hfails] at hb
  cases hb

end Statistics

end Handystats
