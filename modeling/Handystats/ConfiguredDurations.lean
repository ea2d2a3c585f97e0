/-
Which configured durations are what was asked for.

The validators take any unsigned 64-bit number of milliseconds; the duration
that keeps it counts signed, and its nanoseconds are formed modulo 2^64. So a
number from 2^63 on comes out negative, and a moving interval from 2^63
nanoseconds on has lost its length where it is used.
-/
import Handystats.ConfigLayers
import Handystats.DurationConversion
import Handystats.EffectiveOptions

namespace Handystats

open Effect

/-! ## One duration -/

/-- The number that `moving-interval` gives. -/
def movingIntervalNumber : Option Json → Option UInt64
  | some (.uint64 n) => if 0 < n then some n else none
  | _ => none

/-- The number that `idle-timeout`, `interval` or `dump-interval` gives. -/
def millisecondsNumber : Option Json → Option UInt64
  | some (.uint64 n) => some n
  | _ => none

theorem movingIntervalAsked_eq (found : Option Json) :
    movingIntervalAsked found = (movingIntervalNumber found).map milliseconds := by
  rcases found with _ | value
  · rfl
  cases value with
  | uint64 n =>
    simp only [movingIntervalAsked, movingIntervalNumber]
    split_ifs <;> rfl
  | _ => rfl

theorem millisecondsAsked_eq (found : Option Json) :
    millisecondsAsked found = (millisecondsNumber found).map milliseconds := by
  rcases found with _ | value
  · rfl
  cases value with
  | uint64 n => rfl
  | _ => rfl

/-- The option is what it was, or, where a number is given for it, the
duration of exactly that many milliseconds, in range. -/
def AsAsked (given : Option UInt64) (before after : Duration) : Prop :=
  match given with
  | none => after = before
  | some n => after = ⟨n.toNat, .msec⟩ ∧ FitsInt64 n.toNat

/-- The interval is positive, as it is and in nanoseconds. -/
def PositiveInterval (cpn : ℚ) (d : Duration) : Prop := 0 < d.rep ∧ 0 < (d.convertTo cpn .nsec).rep

/-- A number of milliseconds that is a positive moving interval. -/
def IntervalInRange (n : UInt64) : Prop :=
  n.toNat < 2 ^ 63 ∧ 0 < n.toNat * 1000000 % 2 ^ 64 ∧ n.toNat * 1000000 % 2 ^ 64 < 2 ^ 63

instance (n : UInt64) : Decidable (IntervalInRange n) := inferInstanceAs (Decidable (_ ∧ _))

/-- A number below 2^63 keeps its value as a count. -/
theorem milliseconds_of_lt {n : UInt64} (h : n.toNat < 2 ^ 63) : milliseconds n = ⟨n.toNat, .msec⟩ := by
  rw [milliseconds, toInt64_of_fits ⟨by omega, by omega⟩]

theorem asAsked_iff (given : Option UInt64) (before : Duration) :
    AsAsked given before ((given.map milliseconds).getD before) ↔ ∀ n, given = some n → n.toNat < 2 ^ 63 := by
  cases given with
  | none => simp [AsAsked]
  | some n =>
    simp only [AsAsked, Option.map_some, Option.getD_some, Option.some.injEq, forall_eq']
    constructor
    · intro h
      have hhi := h.2.2
      omega
    · intro h
      exact ⟨milliseconds_of_lt h, by omega, by omega⟩

/-- The nanoseconds of a number of milliseconds, as a conversion leaves them. -/
theorem convertTo_nsec_milliseconds (cpn : ℚ) (n : UInt64) :
    ((milliseconds n).convertTo cpn .nsec).rep = toInt64 (n.toNat * 1000000) := by
  have hw : (⟨toInt64 n.toNat, .msec⟩ : Duration).nanoseconds = toInt64 n.toNat * 1000000 := by
    simp [Duration.nanoseconds, nsecFactor]
  rw [milliseconds, Duration.convertTo_wrapped cpn (by simp) (by simp) (by simp), hw]
  simp only [nsecFactor, Nat.cast_one, Int.ediv_one, toInt64_toUint64]
  simp only [toInt64, Int.bmod_mul_bmod]

theorem toInt64_pos_iff (m : Nat) : 0 < toInt64 m ↔ 0 < m % 2 ^ 64 ∧ m % 2 ^ 64 < 2 ^ 63 := by
  rw [toInt64, Int.bmod]
  split <;> omega

/-- **A moving interval is as asked, and positive, just for a number in
range.** -/
theorem interval_asAsked_iff (cpn : ℚ) (given : Option UInt64) {before : Duration}
    (hbefore : PositiveInterval cpn before) :
    AsAsked given before ((given.map milliseconds).getD before) ∧
        PositiveInterval cpn ((given.map milliseconds).getD before) ↔
      ∀ n, given = some n → IntervalInRange n := by
  cases given with
  | none => simp [AsAsked, hbefore]
  | some n =>
    have hasked := asAsked_iff (some n) before
    have hns := toInt64_pos_iff (n.toNat * 1000000)
    rw [hasked]
    simp only [Option.map_some, Option.getD_some, PositiveInterval, convertTo_nsec_milliseconds,
      Option.some.injEq, forall_eq', IntervalInRange]
    push_cast at hns
    rw [hns]
    constructor
    · intro h
      exact ⟨h.1, h.2.2⟩
    · intro h
      have hrep : (milliseconds n).rep = n.toNat := congrArg Duration.rep (milliseconds_of_lt h.1)
      refine ⟨h.1, ?_, h.2⟩
      have hpos := h.2.1
      rw [hrep]
      omega

/-! ## A document -/

theorem lastValid_map {α β : Type} (asked : Option Json → Option α) (f : α → β) (field : String)
    (configs : List Json) :
    lastValid (fun found => (asked found).map f) field configs = (lastValid asked field configs).map f := by
  simp only [lastValid, ← List.getLast?_map, List.map_filterMap]

/-- The sections of `statistics_opts`. -/
def sharedSections (doc : Json) : List Json :=
  [doc.members.lookup "statistics", doc.members.lookup "defaults"].reduceOption

/-- The number of the last section that gives a moving interval. -/
def intervalGiven (configs : List Json) : Option UInt64 :=
  lastValid movingIntervalNumber "moving-interval" configs

/-- The number that a document gives for the idle timeout. -/
def idleTimeoutGiven (doc : Json) : Option UInt64 :=
  lastValid millisecondsNumber "idle-timeout" (ownSections doc "timer")

/-- The number that a document gives for the dump interval. -/
def dumpIntervalGiven (doc : Json) : Option UInt64 :=
  (millisecondsNumber (doc.members.lookup "dump-interval")).or
    ((doc.members.lookup "metrics-dump").bind fun dump => millisecondsNumber (dump.members.lookup "interval"))

theorem StatisticsPatch.ofSections_movingInterval (configs : List Json) :
    (ofSections configs).movingInterval = (intervalGiven configs).map milliseconds := by
  have hasked : movingIntervalAsked = fun found => (movingIntervalNumber found).map milliseconds :=
    funext movingIntervalAsked_eq
  simp only [ofSections, hasked, lastValid_map, intervalGiven]

namespace OptionsPatch

theorem isPart_statistics : IsPart statistics := ⟨rfl, fun _ _ => rfl⟩

theorem statistics_ofDocument (doc : Json) :
    (ofDocument doc).statistics = .ofSections (sharedSections doc) := by
  have h := isPart_statistics
  have hgauge := h.ofMember_empty (fun _ => rfl : ∀ v, (ofGauge v).statistics = .empty)
  have hcounter := h.ofMember_empty (fun _ => rfl : ∀ v, (ofCounter v).statistics = .empty)
  have htimer := h.ofMember_empty (fun _ => rfl : ∀ v, (ofTimer v).statistics = .empty)
  have hdump := h.ofMember_empty (fun _ => rfl : ∀ v, (ofMetricsDump v).statistics = .empty)
  have hcore := h.ofMember_empty (fun _ => rfl : ∀ v, (ofCore v).statistics = .empty)
  have hinterval := h.ofMember_empty (fun _ => rfl : ∀ v, (ofDumpInterval v).statistics = .empty)
  have henable := h.ofMember_empty (fun _ => rfl : ∀ v, (ofEnable v).statistics = .empty)
  have hdefaults := h.ofMember_section (fun _ => rfl : ∀ v, (ofDefaults v).statistics = .ofSection v)
  have hnone : ∀ metrics, (ofMetrics metrics).statistics = .empty := fun metrics => by
    simp only [ofMetrics, h.after, hgauge, hcounter, htimer, StatisticsPatch.empty_after]
  have hmetrics := h.ofMember_empty hnone
  have h₁ := StatisticsPatch.ofSections_reduceOption_concat [] (doc.members.lookup "statistics")
  have h₂ := StatisticsPatch.ofSections_reduceOption_concat [doc.members.lookup "statistics"]
    (doc.members.lookup "defaults")
  have h₀ : StatisticsPatch.ofSections [].reduceOption = .empty := rfl
  rw [h₀, StatisticsPatch.after_empty] at h₁
  simp only [List.nil_append, List.cons_append] at h₁ h₂
  rw [sharedSections, h₂, h₁, ofDocument]
  simp only [h.after, hgauge, hcounter, htimer, hdump, hcore, hinterval, henable, hdefaults, hmetrics,
    StatisticsPatch.empty_after, StatisticsPatch.after_empty]

theorem dumpInterval_ofDocument (doc : Json) :
    (ofDocument doc).dumpInterval = (dumpIntervalGiven doc).map milliseconds := by
  have hother : ∀ {body : Json → OptionsPatch}, (∀ value, (body value).dumpInterval = none) → ∀ name,
      (ofMember doc name body).dumpInterval = none := fun hbody name => ofMember_none rfl hbody doc name
  have hmetrics : ∀ metrics, (ofMetrics metrics).dumpInterval = none := fun metrics => by
    have hgauge : (ofMember metrics "gauge" ofGauge).dumpInterval = none := ofMember_none rfl (fun _ => rfl) _ _
    have hcounter : (ofMember metrics "counter" ofCounter).dumpInterval = none :=
      ofMember_none rfl (fun _ => rfl) _ _
    have htimer : (ofMember metrics "timer" ofTimer).dumpInterval = none := ofMember_none rfl (fun _ => rfl) _ _
    simp only [ofMetrics, after, hgauge, hcounter, htimer, Option.or_none]
  have hdefaults := hother (fun _ => rfl : ∀ v, (ofDefaults v).dumpInterval = none)
  have hgauge := hother (fun _ => rfl : ∀ v, (ofGauge v).dumpInterval = none)
  have hcounter := hother (fun _ => rfl : ∀ v, (ofCounter v).dumpInterval = none)
  have htimer := hother (fun _ => rfl : ∀ v, (ofTimer v).dumpInterval = none)
  have hcore := hother (fun _ => rfl : ∀ v, (ofCore v).dumpInterval = none)
  have henable := hother (fun _ => rfl : ∀ v, (ofEnable v).dumpInterval = none)
  have hnew : (ofMember doc "dump-interval" ofDumpInterval).dumpInterval =
      (millisecondsNumber (doc.members.lookup "dump-interval")).map milliseconds := by
    unfold ofMember
    cases doc.members.lookup "dump-interval" with
    | none => rfl
    | some value => exact millisecondsAsked_eq (some value)
  have hold : (ofMember doc "metrics-dump" ofMetricsDump).dumpInterval =
      ((doc.members.lookup "metrics-dump").bind fun dump =>
        millisecondsNumber (dump.members.lookup "interval")).map milliseconds := by
    unfold ofMember
    cases doc.members.lookup "metrics-dump" with
    | none => rfl
    | some value => exact millisecondsAsked_eq _
  simp only [ofDocument, after, hdefaults, hgauge, hcounter, htimer, hcore, henable, hother hmetrics, hnew,
    hold, Option.or_none, Option.none_or, dumpIntervalGiven, Option.map_or]

theorem idleTimeout_given (doc : Json) :
    (ofDocument doc).idleTimeout = (idleTimeoutGiven doc).map milliseconds := by
  have hasked : millisecondsAsked = fun found => (millisecondsNumber found).map milliseconds :=
    funext millisecondsAsked_eq
  rw [idleTimeout_ofDocument, hasked, lastValid_map, idleTimeoutGiven]

end OptionsPatch

/-- All moving intervals of the options are positive. -/
structure PositiveIntervals (cpn : ℚ) (cfg : Config) : Prop where
  statistics : PositiveInterval cpn cfg.statisticsOpts.movingInterval
  gauge : PositiveInterval cpn cfg.gaugeOpts.values.movingInterval
  counter : PositiveInterval cpn cfg.counterOpts.values.movingInterval
  timer : PositiveInterval cpn cfg.timerOpts.values.movingInterval

/-- Of all options that are durations, what the document asks for. -/
structure DurationsAsAsked (cpn : ℚ) (doc : Json) (cfg cfg' : Config) : Prop where
  statistics : AsAsked (intervalGiven (sharedSections doc)) cfg.statisticsOpts.movingInterval
    cfg'.statisticsOpts.movingInterval
  gauge : AsAsked (intervalGiven (typeSections doc "gauge")) cfg.gaugeOpts.values.movingInterval
    cfg'.gaugeOpts.values.movingInterval
  counter : AsAsked (intervalGiven (typeSections doc "counter")) cfg.counterOpts.values.movingInterval
    cfg'.counterOpts.values.movingInterval
  timer : AsAsked (intervalGiven (typeSections doc "timer")) cfg.timerOpts.values.movingInterval
    cfg'.timerOpts.values.movingInterval
  idleTimeout : AsAsked (idleTimeoutGiven doc) cfg.timerOpts.idleTimeout cfg'.timerOpts.idleTimeout
  interval : AsAsked (dumpIntervalGiven doc) cfg.metricsDumpOpts.interval cfg'.metricsDumpOpts.interval
  positive : PositiveIntervals cpn cfg'

/-- The numbers of a document that decide are in range. -/
structure DurationsInRange (doc : Json) : Prop where
  statistics : ∀ n, intervalGiven (sharedSections doc) = some n → IntervalInRange n
  gauge : ∀ n, intervalGiven (typeSections doc "gauge") = some n → IntervalInRange n
  counter : ∀ n, intervalGiven (typeSections doc "counter") = some n → IntervalInRange n
  timer : ∀ n, intervalGiven (typeSections doc "timer") = some n → IntervalInRange n
  idleTimeout : ∀ n, idleTimeoutGiven doc = some n → n.toNat < 2 ^ 63
  interval : ∀ n, dumpIntervalGiven doc = some n → n.toNat < 2 ^ 63

theorem document_durations_iff {cpn : ℚ} {doc : Json} {cfg cfg' : Config} (hcfg : PositiveIntervals cpn cfg)
    (h : configJson false (some doc) cfg = (.ok true, cfg')) :
    DurationsAsAsked cpn doc cfg cfg' ↔ DurationsInRange doc := by
  obtain ⟨-, -, -, added, rfl⟩ := Config.configJson_accepted h
  have hstatistics := interval_asAsked_iff cpn (intervalGiven (sharedSections doc)) hcfg.statistics
  have hgauge := interval_asAsked_iff cpn (intervalGiven (typeSections doc "gauge")) hcfg.gauge
  have hcounter := interval_asAsked_iff cpn (intervalGiven (typeSections doc "counter")) hcfg.counter
  have htimer := interval_asAsked_iff cpn (intervalGiven (typeSections doc "timer")) hcfg.timer
  have hidle := asAsked_iff (idleTimeoutGiven doc) cfg.timerOpts.idleTimeout
  have hdump := asAsked_iff (dumpIntervalGiven doc) cfg.metricsDumpOpts.interval
  constructor
  · intro hasked
    obtain ⟨h₁, h₂, h₃, h₄, h₅, h₆, hp⟩ := hasked
    obtain ⟨p₁, p₂, p₃, p₄⟩ := hp
    simp only [OptionsPatch.apply, StatisticsPatch.apply, OptionsPatch.statistics_ofDocument,
      OptionsPatch.gauge_ofDocument, OptionsPatch.counter_ofDocument, OptionsPatch.timer_ofDocument,
      StatisticsPatch.ofSections_movingInterval, OptionsPatch.idleTimeout_given,
      OptionsPatch.dumpInterval_ofDocument] at h₁ h₂ h₃ h₄ h₅ h₆ p₁ p₂ p₃ p₄
    exact ⟨hstatistics.1 ⟨h₁, p₁⟩, hgauge.1 ⟨h₂, p₂⟩, hcounter.1 ⟨h₃, p₃⟩, htimer.1 ⟨h₄, p₄⟩,
      hidle.1 h₅, hdump.1 h₆⟩
  · intro hrange
    obtain ⟨h₁, p₁⟩ := hstatistics.2 hrange.statistics
    obtain ⟨h₂, p₂⟩ := hgauge.2 hrange.gauge
    obtain ⟨h₃, p₃⟩ := hcounter.2 hrange.counter
    obtain ⟨h₄, p₄⟩ := htimer.2 hrange.timer
    have h₅ := hidle.2 hrange.idleTimeout
    have h₆ := hdump.2 hrange.interval
    refine ⟨?_, ?_, ?_, ?_, ?_, ?_, ⟨?_, ?_, ?_, ?_⟩⟩ <;>
      simp only [OptionsPatch.apply, StatisticsPatch.apply, OptionsPatch.statistics_ofDocument,
        OptionsPatch.gauge_ofDocument, OptionsPatch.counter_ofDocument, OptionsPatch.timer_ofDocument,
        StatisticsPatch.ofSections_movingInterval, OptionsPatch.idleTimeout_given,
        OptionsPatch.dumpInterval_ofDocument] <;> assumption

/-! ## A pattern section -/

theorem configuredBy_ok {α : Type} {configure : Json → Effect Fault α Unit} {opts opts' : α} {config : Json}
    (h : configuredBy configure opts (some config) = .ok opts') : configure config opts = (.ok (), opts') := by
  unfold configuredBy at h
  simp only at h
  split at h
  · rename_i opts'' hrun
    rw [hrun, Except.ok.inj h]
  · cases h

/-- What a pattern section makes of a type's options. -/
theorem overriddenOptions_section {cfg : Config} {config : Json} {kind : MetricIndex}
    {base opts : MetricOptions} (hbase : typeOptions cfg kind = some base)
    (h : overriddenOptions cfg (some config) kind = .ok (some opts)) :
    opts.values = (StatisticsPatch.ofSection config).apply base.values ∧
      opts.idleTimeout = base.idleTimeout.map
        (millisecondsAsked (config.members.lookup "idle-timeout")).getD := by
  unfold overriddenOptions at h
  cases kind with
  | counter =>
    obtain ⟨obj, hobj, h⟩ := Runs.bind_eq_ok.1 h
    obtain rfl := Option.some.inj hbase
    obtain rfl := Option.some.inj (Except.ok.inj h)
    rw [(CounterConfig.configure_yields config).of_ok (configuredBy_ok hobj)]
    exact ⟨rfl, rfl⟩
  | gauge =>
    obtain ⟨obj, hobj, h⟩ := Runs.bind_eq_ok.1 h
    obtain rfl := Option.some.inj hbase
    obtain rfl := Option.some.inj (Except.ok.inj h)
    rw [(GaugeConfig.configure_yields config).of_ok (configuredBy_ok hobj)]
    exact ⟨rfl, rfl⟩
  | timer =>
    obtain ⟨obj, hobj, h⟩ := Runs.bind_eq_ok.1 h
    obtain rfl := Option.some.inj hbase
    obtain rfl := Option.some.inj (Except.ok.inj h)
    rw [TimerConfig.configure_ok (configuredBy_ok hobj)]
    exact ⟨rfl, rfl⟩
  | _ => cases hbase

/-- What a pattern section asks for. -/
structure SectionAsAsked (cpn : ℚ) (config : Json) (base opts : MetricOptions) : Prop where
  interval : AsAsked (movingIntervalNumber (config.members.lookup "moving-interval"))
    base.values.movingInterval opts.values.movingInterval
  positive : PositiveInterval cpn opts.values.movingInterval
  idleTimeout : ∀ before after, base.idleTimeout = some before → opts.idleTimeout = some after →
    AsAsked (millisecondsNumber (config.members.lookup "idle-timeout")) before after

/-- Its numbers are in range; only timers have an idle timeout. -/
structure SectionInRange (config : Json) (base : MetricOptions) : Prop where
  interval : ∀ n, movingIntervalNumber (config.members.lookup "moving-interval") = some n → IntervalInRange n
  idleTimeout : base.idleTimeout.isSome → ∀ n,
    millisecondsNumber (config.members.lookup "idle-timeout") = some n → n.toNat < 2 ^ 63

theorem section_durations_iff {cpn : ℚ} {cfg : Config} {config : Json} {kind : MetricIndex}
    {base opts : MetricOptions} (hbase : typeOptions cfg kind = some base)
    (hpos : PositiveInterval cpn base.values.movingInterval)
    (h : overriddenOptions cfg (some config) kind = .ok (some opts)) :
    SectionAsAsked cpn config base opts ↔ SectionInRange config base := by
  obtain ⟨hvalues, hidle⟩ := overriddenOptions_section hbase h
  have hinterval := interval_asAsked_iff cpn
    (movingIntervalNumber (config.members.lookup "moving-interval")) hpos
  have hmoving : opts.values.movingInterval =
      ((movingIntervalNumber (config.members.lookup "moving-interval")).map milliseconds).getD
        base.values.movingInterval := by
    rw [hvalues, ← movingIntervalAsked_eq]
    rfl
  rw [← hmoving] at hinterval
  constructor
  · intro hasked
    refine ⟨hinterval.1 ⟨hasked.interval, hasked.positive⟩, fun hsome => ?_⟩
    obtain ⟨before, hbefore⟩ := Option.isSome_iff_exists.1 hsome
    rw [hbefore, Option.map_some, millisecondsAsked_eq] at hidle
    exact (asAsked_iff _ _).1 (hasked.idleTimeout before _ hbefore hidle)
  · intro hrange
    obtain ⟨hasked, hpositive⟩ := hinterval.2 hrange.interval
    refine ⟨hasked, hpositive, fun before after hbefore hafter => ?_⟩
    rw [hbefore, Option.map_some, millisecondsAsked_eq] at hidle
    obtain rfl := Option.some.inj (hidle.symm.trans hafter)
    exact (asAsked_iff _ _).2 (hrange.idleTimeout (by rw [hbefore]; rfl))

/-- **Which configured durations are what was asked for.** Of a document that
`config_json` accepts, and of a pattern section that a metric is made with:
each duration is as it was or of exactly the milliseconds given, and the
moving intervals stay positive, just if the numbers that decide are below
2^63, and those of moving intervals come to positive nanoseconds modulo
2^64. -/
theorem configured_durations_iff (cpn : ℚ) :
    (∀ (doc : Json) (cfg cfg' : Config), PositiveIntervals cpn cfg →
      configJson false (some doc) cfg = (.ok true, cfg') →
        (DurationsAsAsked cpn doc cfg cfg' ↔ DurationsInRange doc)) ∧
    ∀ (cfg : Config) (config : Json) (kind : MetricIndex) (base opts : MetricOptions),
      typeOptions cfg kind = some base → PositiveInterval cpn base.values.movingInterval →
      overriddenOptions cfg (some config) kind = .ok (some opts) →
        (SectionAsAsked cpn config base opts ↔ SectionInRange config base) :=
  ⟨fun _ _ _ hcfg h => document_durations_iff hcfg h, fun _ _ _ _ _ hbase hpos h =>
    section_durations_iff hbase hpos h⟩

theorem configured_durations_sample :
    ∃ cfg, configJson false (some sampleLayers) .default = (.ok true, cfg) ∧
      DurationsAsAsked 1 sampleLayers .default cfg := by
  have haccepted : (configJson false (some sampleLayers) .default).1 = .ok true := by decide +kernel
  have hrun : configJson false (some sampleLayers) .default =
      (.ok true, (configJson false (some sampleLayers) .default).2) := Prod.ext haccepted rfl
  have hsecond : PositiveInterval 1 ⟨1, .sec⟩ := ⟨by decide, by decide +kernel⟩
  have hshared : intervalGiven (sharedSections sampleLayers) = some 500 := by decide +kernel
  have hgauge : intervalGiven (typeSections sampleLayers "gauge") = some 500 := by decide +kernel
  have hcounter : intervalGiven (typeSections sampleLayers "counter") = some 500 := by decide +kernel
  have htimer : intervalGiven (typeSections sampleLayers "timer") = some 500 := by decide +kernel
  have hidle : idleTimeoutGiven sampleLayers = some 7 := by decide +kernel
  have hdump : dumpIntervalGiven sampleLayers = none := by decide +kernel
  refine ⟨_, hrun, ((configured_durations_iff 1).1 _ _ _ ⟨hsecond, hsecond, hsecond, hsecond⟩ hrun).2 ?_⟩
  have hrange : ∀ {P : UInt64 → Prop} {given : Option UInt64} {m : UInt64}, given = some m → P m →
      ∀ n, given = some n → P n := by
    intro P given m hgiven hm n hn
    obtain rfl := Option.some.inj (hgiven.symm.trans hn)
    exact hm
  refine ⟨hrange hshared (by decide), hrange hgauge (by decide), hrange hcounter (by decide),
    hrange htimer (by decide), hrange hidle (by decide), fun n hn => ?_⟩
  rw [hdump] at hn
  cases hn

/-- An idle timeout of 2^63 milliseconds, and a moving interval of little more
than 2^63 nanoseconds. -/
def sampleDurations : Json :=
  .object
    [("timer", .object [("idle-timeout", .uint64 9223372036854775808)]),
      ("gauge", .object [("moving-interval", .uint64 9223372036855)])]

/-- The one comes out as far below zero; the other in nanoseconds does. -/
theorem configured_durations_negative :
    ∃ cfg, configJson false (some sampleDurations) .default = (.ok true, cfg) ∧
      cfg.timerOpts.idleTimeout = ⟨-9223372036854775808, .msec⟩ ∧
      cfg.gaugeOpts.values.movingInterval = ⟨9223372036855, .msec⟩ ∧
      (cfg.gaugeOpts.values.movingInterval.convertTo 1 .nsec).rep < 0 := by
  have haccepted : (configJson false (some sampleDurations) .default).1 = .ok true := by decide +kernel
  exact ⟨_, Prod.ext haccepted rfl, by decide +kernel, by decide +kernel, by decide +kernel⟩

end Handystats
