/-
Which configurations never make the processing of events throw.

`config_json` checks the names of pattern sections and none of their contents,
and it bounds no number of bins. What goes wrong is found by the first event:
an unknown tag of the section that its name selects, or a number of bins that
cannot be reserved. `events_never_throw_iff` says that nothing else can go
wrong; undefined behaviour is no exception.
-/
import Handystats.InternalFacts

namespace Handystats

open Runs

namespace Internal

variable {K : Type} [Field K] [LinearOrder K] {env : Environment K} {cfg : Config} {s : Internal K}

/-- One message, as a step. -/
def messageStep (env : Environment K) (cfg : Config) (s : Internal K)
    (message : EventMessage × Surroundings) : Except Fault (Internal K) :=
  s.processEventMessage env cfg message.1 message.2

/-- No pointer of the map is null. -/
def NoNull (s : Internal K) : Prop := ∀ entry ∈ s.metricsMap.entries, entry.2.isNull = false

/-- Processing these messages throws nothing and leaves no null pointer. -/
def NeverThrows (env : Environment K) (cfg : Config) (s : Internal K) : Prop :=
  ∀ messages, Ends NoNull NotThrown (run (messageStep env cfg) s messages)

/-- The number of bins that a section asks for, if any, fits. -/
def FittingBins (pf : Platform K) (config : Json) : Prop :=
  ∀ n, config.members.lookup "histogram-bins" = some (.uint64 n) → BinsFit pf n.toNat

omit [Field K] in
theorem binsFit_binsOf {pf : Platform K} {config : Json} {histogramBins : Nat}
    (h : FittingBins pf config) (hbins : BinsFit pf histogramBins) :
    BinsFit pf (binsOf config histogramBins) := by
  unfold binsOf
  cases hfound : config.members.lookup "histogram-bins" with
  | none => exact hbins
  | some value =>
    cases value with
    | uint64 n =>
      simp only [binsAsked]
      split_ifs
      · exact h n hfound
      · exact hbins
    | _ => exact hbins

omit [Field K] in
theorem fittingBins_of_binsOf {pf : Platform K} {config : Json} {histogramBins : Nat}
    (h : BinsFit pf (binsOf config histogramBins)) : FittingBins pf config := by
  intro n hn hpos
  have hpos' : 0 < n := hpos
  rw [binsOf, hn] at h
  simp only [binsAsked, if_pos hpos'] at h
  exact h hpos

/-! ## What throws -/

/-- A message to a new name throws if its metric cannot be created. -/
theorem throws_of_not_creatable {name : String} {type : MetricIndex} (hs : s.metricsMap.lookup name = none)
    (h : ¬ Creatable env cfg name type) (eventType : Nat) (t : Int) (data : UInt64) (sur : Surroundings) :
    ∃ f, s.processEventMessage env cfg ⟨type, eventType, name, t, data⟩ sur = .error f ∧
      f.isException = true := by
  rcases newMetric_returnsIff env cfg ⟨type, eventType, name, t, data⟩
    with ⟨hc, -⟩ | ⟨-, f, hf, hexc⟩
  · exact absurd hc h
  · refine ⟨f, ?_, hexc⟩
    have hnull : (s.metric name).isNull = true := by rw [Internal.metric, hs]; rfl
    simp only [processEventMessage, hnull, if_true, hf]
    rfl

/-- A message to a new name throws if its metric does. -/
theorem throws_of_processMetric {message : EventMessage} {sur : Surroundings} {f : Fault}
    (hs : s.metricsMap.lookup message.destinationName = none) (hf : f.isException = true)
    (h : ∀ metricPtr, metricPtr.InUse env.platform → metricPtr.which = message.destinationType →
      processMetric env cfg sur.heap metricPtr message = .error f) :
    ∃ f, s.processEventMessage env cfg message sur = .error f ∧ f.isException = true := by
  have hnull : (s.metric message.destinationName).isNull = true := by rw [Internal.metric, hs]; rfl
  simp only [processEventMessage, hnull, if_true]
  rcases newMetric_returnsIff env cfg message
    with ⟨-, metricPtr, hnew, huse, hwhich⟩ | ⟨-, f', hnew, hexc⟩
  · exact ⟨f, by rw [hnew]; exact bind_eq_error.2 (.inr ⟨_, rfl, bind_eq_error.2 (.inl (h _ huse hwhich))⟩), hf⟩
  · exact ⟨f', by rw [hnew]; rfl, hexc⟩

/-! Each type's `INIT` event constructs its metric anew. -/

theorem lengthError_of_not_fit {pf : Platform K} {opts : StatisticsConfig}
    (h : ¬ BinsFit pf opts.histogramBins) : Statistics.new pf opts = .error .lengthError :=
  Statistics.reset_of_not_fit h

theorem CounterEvents.init_throws {opts : CounterConfig} {counter : Counter K} {message : EventMessage}
    (h : ¬ BinsFit env.platform opts.values.histogramBins) (hinit : message.eventType = CounterEvents.init) :
    CounterEvents.processEvent env opts counter message = .error .lengthError := by
  rw [CounterEvents.processEvent, if_pos hinit, CounterEvents.processInitEvent, Counter.new,
    lengthError_of_not_fit h]
  rfl

theorem GaugeEvents.init_throws {opts : GaugeConfig} {gauge : Gauge K} {message : EventMessage}
    (h : ¬ BinsFit env.platform opts.values.histogramBins) (hinit : message.eventType = GaugeEvents.init) :
    GaugeEvents.processEvent env opts gauge message = .error .lengthError := by
  rw [GaugeEvents.processEvent, if_pos hinit, GaugeEvents.processInitEvent, Gauge.new,
    lengthError_of_not_fit h]
  rfl

theorem TimerEvents.init_throws {opts : TimerConfig} {timer : Timer (Statistics K)} {message : EventMessage}
    (h : ¬ BinsFit env.platform opts.values.histogramBins) (hinit : message.eventType = TimerEvents.init) :
    TimerEvents.processEvent env opts timer message = .error .lengthError := by
  rw [TimerEvents.processEvent, if_pos hinit, TimerEvents.processInitEvent, Timer.new,
    lengthError_of_not_fit h]
  rfl

theorem NeverThrows.message (h : NeverThrows env cfg s) {message : EventMessage} {sur : Surroundings}
    {f : Fault} (hf : s.processEventMessage env cfg message sur = .error f) : ¬ f.isException = true := by
  have hrun : run (messageStep env cfg) s [(message, sur)] = .error f := by
    rw [run, List.foldlM_cons, messageStep, hf]
    rfl
  rw [(h _).of_error hrun]
  simp

/-- The bins of a type's options. Attributes have none. -/
def binsOfType (bins : Bins) : MetricIndex → Option Nat
  | .counter => some bins.counter
  | .gauge => some bins.gauge
  | .timer => some bins.timer
  | .attribute => none

/-- An event that begins a metric anew throws where the bins of its type do not
fit. Its code is 0, whatever the type. -/
theorem processMetric_init_throws {heap : AttributeHeap} {metricPtr : MetricPtr K} {message : EventMessage}
    {histogramBins : Nat} (huse : metricPtr.InUse env.platform)
    (hbins : binsOfType cfg.bins metricPtr.which = some histogramBins)
    (hfit : ¬ BinsFit env.platform histogramBins) (hinit : message.eventType = 0) :
    processMetric env cfg heap metricPtr message = .error .lengthError := by
  rcases metricPtr with (_ | counter) | (_ | gauge) | (_ | timer) | (_ | metric)
  case counter.some =>
    cases hbins
    exact bind_eq_error.2 (.inl (CounterEvents.init_throws hfit hinit))
  case gauge.some =>
    cases hbins
    exact bind_eq_error.2 (.inl (GaugeEvents.init_throws hfit hinit))
  case timer.some =>
    cases hbins
    exact bind_eq_error.2 (.inl (TimerEvents.init_throws hfit hinit))
  case attribute.some => cases hbins
  all_goals exact huse.elim

/-- The bins of a type's options fit: an event of the type begins a metric anew
with them. -/
theorem NeverThrows.fits (h : NeverThrows env cfg s) (hempty : s.metricsMap = ∅) (type : MetricIndex)
    {histogramBins : Nat} (hbins : binsOfType cfg.bins type = some histogramBins) :
    BinsFit env.platform histogramBins := by
  by_contra hfit
  have hlookup : s.metricsMap.lookup "" = none := by simp [hempty]
  obtain ⟨f, hf, hexc⟩ : ∃ f, s.processEventMessage env cfg ⟨type, 0, "", 0, 0⟩ ⟨fun _ => none, 0, 0⟩ = .error f ∧
      f.isException = true := by
    refine throws_of_processMetric hlookup (f := .lengthError) rfl fun metricPtr huse hwhich => ?_
    exact processMetric_init_throws huse (hwhich ▸ hbins) hfit rfl
  exact h.message hf hexc

theorem NeverThrows.fit (h : NeverThrows env cfg s) (hempty : s.metricsMap = ∅) :
    cfg.bins.Fit env.platform :=
  ⟨h.fits hempty .counter rfl, h.fits hempty .gauge rfl, h.fits hempty .timer rfl⟩

/-! ## The condition -/

variable [IsStrictOrderedRing K]

/-- **Events never throw** under an accepted configuration if, and only if, the
bins of each type's options can be reserved and every section that some name
selects has valid tags and asks for bins that can be reserved. -/
theorem events_never_throw_iff {doc : Json} {now : Int}
    (hcfg : configJson false (some doc) .default = (.ok true, cfg)) (h₀ : initialized env now = .ok s) :
    NeverThrows env cfg s ↔
      (Bins.ofDocument doc Config.default.bins).Fit env.platform ∧
        ∀ name config, selectPattern env.fnmatch (Config.patternSections doc.members) name = some config →
          ValidTags config ∧ FittingBins env.platform config := by
  have hpatterns : cfg.patternOpts = Config.patternSections doc.members := Config.configJson_patternOpts hcfg
  rw [← hpatterns, ← Config.configJson_bins hcfg]
  constructor
  · intro h
    have hempty := initialized_metricsMap h₀
    refine ⟨h.fit hempty, fun name config hselect => ?_⟩
    have hcreatable : Creatable env cfg name .gauge := by
      by_contra hc
      have hlookup : s.metricsMap.lookup name = none := by simp [hempty]
      obtain ⟨f, hf, hexc⟩ := throws_of_not_creatable hlookup hc 0 0 0 ⟨fun _ => none, 0, 0⟩
      exact h.message hf hexc
    obtain ⟨htags, hbins⟩ := hcreatable
    rw [hselect] at htags hbins
    exact ⟨htags config rfl, fittingBins_of_binsOf hbins⟩
  · rintro ⟨hfit, hsections⟩ messages
    have hcreates : Creates env cfg := by
      refine ⟨hfit, fun name type => ?_⟩
      have hfrom : ∀ opts : StatisticsConfig, BinsFit env.platform opts.histogramBins →
          CreatableFrom env.platform (selectPattern env.fnmatch cfg.patternOpts name) opts := by
        intro opts hopts
        cases hselect : selectPattern env.fnmatch cfg.patternOpts name with
        | none => exact ⟨by simp, hopts⟩
        | some config =>
          obtain ⟨htags, hbins⟩ := hsections name config hselect
          exact ⟨by rintro _ ⟨⟩; exact htags, binsFit_binsOf hbins hopts⟩
      cases type with
      | counter => exact hfrom _ hfit.counter
      | gauge => exact hfrom _ hfit.gauge
      | timer => exact hfrom _ hfit.timer
      | _ => trivial
    have hstep : ∀ s message, Inv env s →
        Ends (Inv env) (ThrownUnless (Creates env cfg)) (messageStep env cfg s message) :=
      fun _ message hI => hI.processEventMessage message.2
    have hrun := run_ends hstep messages (Inv.initialized h₀)
    exact (hrun.mono fun s hI entry hentry => (hI.metrics entry hentry).isNull).mono_fault
      fun _ hf => hf hcreates

theorem events_never_throw_sample : ∃ (cfg : Config) (s : Internal ℚ),
    configJson false (some (sampleDocument [("tags", .array [.string "max"]), ("histogram-bins", .uint64 5)]))
      .default = (.ok true, cfg) ∧
    initialized sampleEnvironment 0 = .ok s ∧ NeverThrows sampleEnvironment cfg s := by
  let config : List (String × Json) := [("tags", .array [.string "max"]), ("histogram-bins", .uint64 5)]
  let result := configJson false (some (sampleDocument config)) .default
  have hcfg : result = (.ok true, result.2) := Prod.ext (by decide +kernel) rfl
  obtain ⟨s, h₀⟩ : ∃ s, initialized sampleEnvironment 0 = .ok s :=
    exists_ok_of_toBool (by decide +kernel)
  have hfit : (Bins.ofDocument (sampleDocument config) Config.default.bins).Fit
      sampleEnvironment.platform :=
    ⟨fun _ => by decide +kernel, fun _ => by decide +kernel, fun _ => by decide +kernel⟩
  have htags : ValidTags (.object config) := by
    intro tags htags
    cases (show some (Json.array [.string "max"]) = some (.array tags) from htags)
    intro tag htag
    obtain rfl : tag = "max" := by simpa using htag
    decide +kernel
  have hbins : FittingBins sampleEnvironment.platform (.object config) := by
    intro n hn
    cases (show some (Json.uint64 5) = some (.uint64 n) from hn)
    exact fun _ => by decide +kernel
  refine ⟨_, s, hcfg, h₀, (events_never_throw_iff hcfg h₀).2 ⟨hfit, fun name selected hselect => ?_⟩⟩
  rw [sampleDocument_selectPattern] at hselect
  cases hselect
  exact ⟨htags, hbins⟩

/-- A section with a tag that does not exist is accepted, and the first event throws. -/
theorem unknown_tag_throws : ∃ (cfg : Config) (s : Internal ℚ),
    configJson false (some (sampleDocument [("tags", .array [.string "median"])])) .default =
      (.ok true, cfg) ∧
    initialized sampleEnvironment 0 = .ok s ∧
    s.processEventMessage sampleEnvironment cfg (GaugeEvents.createSetEvent "requests" 0 1)
      ⟨fun _ => none, 0, 0⟩ = .error .invalidTag := by
  let config : List (String × Json) := [("tags", .array [.string "median"])]
  let result := configJson false (some (sampleDocument config)) .default
  have hcfg : result = (.ok true, result.2) := Prod.ext (by decide +kernel) rfl
  obtain ⟨s, h₀⟩ : ∃ s, initialized sampleEnvironment 0 = .ok s :=
    exists_ok_of_toBool (by decide +kernel)
  refine ⟨_, s, hcfg, h₀, ?_⟩
  have hselect : selectPattern sampleEnvironment.fnmatch result.2.patternOpts "requests" =
      some (.object config) := by
    rw [Config.configJson_patternOpts hcfg]
    exact sampleDocument_selectPattern config "requests"
  have hconfigured : configuredBy GaugeConfig.configure result.2.gaugeOpts (some (.object config)) =
      .error .invalidTag := by
    rcases GaugeConfig.configure_configures (.object config) result.2.gaugeOpts with
      ⟨hvalid, -⟩ | ⟨-, opts, hopts⟩
    · have hmedian : cString "median" ∈ Tag.names := hvalid _ rfl "median" (by simp)
      exact absurd hmedian (by decide +kernel)
    · simp only [configuredBy, hopts]
  have hnull : (s.metric "requests").isNull = true := by
    rw [Internal.metric, initialized_metricsMap h₀]
    rfl
  have hnew : newMetric sampleEnvironment result.2 (GaugeEvents.createSetEvent "requests" 0 1) =
      .error .invalidTag := by
    simp only [newMetric, GaugeEvents.createSetEvent, hselect, hconfigured]
    rfl
  simp only [processEventMessage, GaugeEvents.createSetEvent, hnull, if_true] at hnew ⊢
  rw [hnew]
  rfl

end Internal

end Handystats
