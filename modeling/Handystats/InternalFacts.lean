/-
What the map of metrics keeps.

`Inv` is the invariant of every run: all metrics are there and in use, and so
are the two gauges the library keeps about itself. Where the options of every
type fit (`Bins.Fit`) and whatever is created is created without an
exception, a step keeps it or runs into undefined behaviour.
-/
import Handystats.MetricsFacts
import Handystats.DocumentBins
import Handystats.Internal

namespace Handystats

open Runs

variable {K : Type} [Field K] [LinearOrder K]

/-- A pointer to a metric that is in use. -/
def MetricPtr.InUse (pf : Platform K) : MetricPtr K → Prop
  | .counter (some metric) => ∃ config, metric.values.InUse pf config
  | .gauge (some metric) => ∃ config, metric.values.InUse pf config
  | .timer (some metric) => ∃ config, metric.values.InUse pf config
  | .attribute (some _) => True
  | _ => False

theorem MetricPtr.InUse.isNull {pf : Platform K} {metricPtr : MetricPtr K} (h : metricPtr.InUse pf) :
    metricPtr.isNull = false := by
  rcases metricPtr with (_ | _) | (_ | _) | (_ | _) | (_ | _)
  all_goals first
    | rfl
    | exact h.elim

/-- These numbers of bins can be reserved. -/
structure Bins.Fit (pf : Platform K) (bins : Bins) : Prop where
  counter : BinsFit pf bins.counter
  gauge : BinsFit pf bins.gauge
  timer : BinsFit pf bins.timer

variable {env : Environment K} {cfg : Config} {message : EventMessage}

/-! ## One metric -/

/-- The kind of a metric never changes. -/
theorem processMetric_which {heap : AttributeHeap} {metricPtr : MetricPtr K}
    {r : MetricPtr K × Option PayloadKind} (h : processMetric env cfg heap metricPtr message = .ok r) :
    r.1.which = metricPtr.which := by
  rcases metricPtr with (_ | _) | (_ | _) | (_ | _) | (_ | _)
  all_goals first
    | cases h
    | (obtain ⟨_, -, hr⟩ := bind_eq_ok.1 h
       cases hr
       rfl)

section

variable [IsStrictOrderedRing K] {config : StatisticsConfig}

theorem CounterEvents.processEvent_ends {counter : Counter K} {opts : CounterConfig}
    (h : counter.values.InUse env.platform config) :
    Ends (fun r => ∃ config, r.1.values.InUse env.platform config)
      (ThrownUnless (BinsFit env.platform opts.values.histogramBins))
      (CounterEvents.processEvent env opts counter message) := by
  have hinit : Ends (fun counter => counter.values.InUse env.platform opts.values)
      (ThrownUnless (BinsFit env.platform opts.values.histogramBins)) (processInitEvent env opts message) :=
    (Counter.new_returnsIff opts).ends.bind fun _ hnew => thrownUnless (Counter.init_ends hnew _ _)
  have hincrement : Ends (fun counter => counter.values.InUse env.platform config) NotThrown
      (processIncrementEvent env counter message) := by
    unfold processIncrementEvent Counter.increment
    exact Counter.changed_ends h _ _
  have hdecrement : Ends (fun counter => counter.values.InUse env.platform config) NotThrown
      (processDecrementEvent env counter message) := by
    unfold processDecrementEvent Counter.decrement
    exact Counter.changed_ends h _ _
  unfold CounterEvents.processEvent
  split_ifs
  · exact hinit.bind fun _ hr => ⟨_, hr⟩
  · exact (thrownUnless hincrement).bind fun _ hr => ⟨_, hr⟩
  · exact (thrownUnless hdecrement).bind fun _ hr => ⟨_, hr⟩
  · exact ⟨_, h⟩

theorem GaugeEvents.processEvent_ends {gauge : Gauge K} {opts : GaugeConfig}
    (h : gauge.values.InUse env.platform config) :
    Ends (fun r => ∃ config, r.1.values.InUse env.platform config)
      (ThrownUnless (BinsFit env.platform opts.values.histogramBins))
      (GaugeEvents.processEvent env opts gauge message) := by
  have hinit : Ends (fun gauge => gauge.values.InUse env.platform opts.values)
      (ThrownUnless (BinsFit env.platform opts.values.histogramBins)) (processInitEvent env opts message) :=
    (Gauge.new_returnsIff opts).ends.bind fun _ hnew => thrownUnless (Gauge.set_ends hnew _ _)
  have hset : Ends (fun gauge => gauge.values.InUse env.platform config) NotThrown
      (processSetEvent env gauge message) := Gauge.set_ends h _ _
  unfold GaugeEvents.processEvent
  split_ifs
  · exact hinit.bind fun _ hr => ⟨_, hr⟩
  · exact (thrownUnless hset).bind fun _ hr => ⟨_, hr⟩
  · exact ⟨_, h⟩

theorem TimerEvents.processEvent_ends {timer : Timer (Statistics K)} {opts : TimerConfig}
    (h : timer.values.InUse env.platform config) :
    Ends (fun r => ∃ config, r.1.values.InUse env.platform config)
      (ThrownUnless (BinsFit env.platform opts.values.histogramBins))
      (TimerEvents.processEvent env opts timer message) := by
  have hcheck : ∀ t, (timer.checkIdleTimeout env.platform.clock t false).values.InUse env.platform config :=
    fun t => by rwa [Timer.checkIdleTimeout_values]
  have hinit : Ends (fun timer => timer.values.InUse env.platform opts.values)
      (ThrownUnless (BinsFit env.platform opts.values.histogramBins)) (processInitEvent env opts message) := by
    refine (Timer.new_returnsIff opts).ends.bind fun timer hnew => ?_
    change (timer.checkIdleTimeout _ _ _).values.InUse _ _
    rwa [Timer.checkIdleTimeout_values]
  have hheartbeat : (timer.heartbeat env.platform.clock message.eventData message.timestamp).values.InUse
      env.platform config := by rwa [Timer.heartbeat_values]
  have hset : Ends (fun timer => timer.values.InUse env.platform config) NotThrown
      (processSetEvent env timer message) := Timer.set_ends h _ _
  unfold TimerEvents.processEvent
  split_ifs
  · exact hinit.bind fun _ hr => ⟨_, hr⟩
  · exact ⟨_, hcheck _⟩
  · exact (thrownUnless (Timer.stop_ends h _ _)).bind fun _ hr => ⟨_, hr⟩
  · exact ⟨_, hcheck _⟩
  · exact ⟨_, hheartbeat⟩
  · exact (thrownUnless hset).bind fun _ hr => ⟨_, hr⟩
  · exact ⟨_, h⟩

/-- A metric in use stays so at any message. -/
theorem processMetric_ends {heap : AttributeHeap} {metricPtr : MetricPtr K}
    (h : metricPtr.InUse env.platform) :
    Ends (fun r => r.1.InUse env.platform) (ThrownUnless (cfg.bins.Fit env.platform))
      (processMetric env cfg heap metricPtr message) := by
  rcases metricPtr with (_ | counter) | (_ | gauge) | (_ | timer) | (_ | metric)
  case counter.some =>
    obtain ⟨config, h⟩ := h
    exact (thrownUnless_mono (CounterEvents.processEvent_ends h) Bins.Fit.counter).bind fun _ hr => hr
  case gauge.some =>
    obtain ⟨config, h⟩ := h
    exact (thrownUnless_mono (GaugeEvents.processEvent_ends h) Bins.Fit.gauge).bind fun _ hr => hr
  case timer.some =>
    obtain ⟨config, h⟩ := h
    exact (thrownUnless_mono (TimerEvents.processEvent_ends h) Bins.Fit.timer).bind fun _ hr => hr
  case attribute.some =>
    have hset : Ends (fun _ => True) NotThrown (AttributeEvents.processSetEvent heap metric message) := by
      unfold AttributeEvents.processSetEvent
      cases heap message.eventData with
      | none => exact notThrown_undefined
      | some value => trivial
    have hevent : Ends (fun _ => True) NotThrown (AttributeEvents.processEvent heap metric message) := by
      unfold AttributeEvents.processEvent
      split_ifs
      · exact hset.bind fun _ _ => trivial
      · trivial
    exact (thrownUnless hevent).bind fun _ _ => trivial
  all_goals exact h.elim

end

/-! ## Creation -/

/-- Options that a section, if there is one, configures without an exception,
to bins that fit. -/
def CreatableFrom (pf : Platform K) (found : Option Json) (opts : StatisticsConfig) : Prop :=
  (∀ config, found = some config → ValidTags config) ∧
    BinsFit pf ((found.map binsOf).getD id opts.histogramBins)

/-- A metric of this type can be created under this name. -/
def Creatable (env : Environment K) (cfg : Config) (name : String) : MetricIndex → Prop
  | .counter =>
    CreatableFrom env.platform (selectPattern env.fnmatch cfg.patternOpts name) cfg.counterOpts.values
  | .gauge =>
    CreatableFrom env.platform (selectPattern env.fnmatch cfg.patternOpts name) cfg.gaugeOpts.values
  | .timer =>
    CreatableFrom env.platform (selectPattern env.fnmatch cfg.patternOpts name) cfg.timerOpts.values
  | .attribute => True

omit [Field K] in
/-- Options of any type, configured and used. -/
theorem configuredBy_returnsIff {α β : Type} {pf : Platform K} {values : α → StatisticsConfig}
    {configure : Json → Effect Fault α Unit} {create : α → Except Fault β} {P : β → Prop}
    (hconfigure : ∀ config, Configures (fun opts => (values opts).histogramBins) (ValidTags config)
      (binsOf config) (configure config))
    (hcreate : ∀ opts, ReturnsIff (BinsFit pf (values opts).histogramBins) P (create opts)) (opts : α)
    (found : Option Json) :
    ReturnsIff (CreatableFrom pf found (values opts)) P (configuredBy configure opts found >>= create) := by
  cases found with
  | none => exact (hcreate opts).congr (by simp [CreatableFrom])
  | some config =>
    rcases hconfigure config opts with ⟨hv, opts', hopts', hbins⟩ | ⟨hv, opts', hopts'⟩
    · change (values opts').histogramBins = binsOf config (values opts).histogramBins at hbins
      have hrun : configuredBy configure opts (some config) = .ok opts' := by simp [configuredBy, hopts']
      rw [hrun]
      exact (hcreate opts').congr (by simp [CreatableFrom, hv, hbins])
    · have hrun : configuredBy configure opts (some config) = .error .invalidTag := by
        simp [configuredBy, hopts']
      rw [hrun]
      exact .inr ⟨fun h => hv (h.1 config rfl), .invalidTag, rfl, rfl⟩

/-- What a message creates: a metric in use, of the message's type. -/
theorem newMetric_returnsIff (env : Environment K) (cfg : Config) (message : EventMessage) :
    ReturnsIff (Creatable env cfg message.destinationName message.destinationType)
      (fun metricPtr => metricPtr.InUse env.platform ∧ metricPtr.which = message.destinationType)
      (newMetric env cfg message) := by
  unfold newMetric Creatable
  cases message.destinationType with
  | counter =>
    exact configuredBy_returnsIff CounterConfig.configure_configures
      (fun opts => (Counter.new_returnsIff opts).map fun _ h => ⟨⟨_, h⟩, rfl⟩) _ _
  | gauge =>
    exact configuredBy_returnsIff GaugeConfig.configure_configures
      (fun opts => (Gauge.new_returnsIff opts).map fun _ h => ⟨⟨_, h⟩, rfl⟩) _ _
  | timer =>
    exact configuredBy_returnsIff TimerConfig.configure_configures
      (fun opts => (Timer.new_returnsIff opts).map fun _ h => ⟨⟨_, h⟩, rfl⟩) _ _
  | _ => exact .inl ⟨trivial, _, rfl, trivial, rfl⟩

/-! ## The map -/

namespace Internal

variable {s s' : Internal K}

/-- The invariant. -/
structure Inv (env : Environment K) (s : Internal K) : Prop where
  metrics : ∀ entry ∈ s.metricsMap.entries, entry.2.InUse env.platform
  size : s.size.values.InUse env.platform sizeOpts.values
  processTime : s.processTime.values.InUse env.platform processTimeOpts.values

theorem Inv.metric (h : Inv env s) {name : String} {metricPtr : MetricPtr K}
    (hm : s.metricsMap.lookup name = some metricPtr) : metricPtr.InUse env.platform :=
  h.metrics ⟨name, metricPtr⟩ (AList.mem_lookup_iff.1 hm)

/-- A name is found with its metric, or not at all. -/
theorem Inv.metric_cases (h : Inv env s) (name : String) :
    (s.metricsMap.lookup name = none ∧ s.metric name = .default ∧ (s.metric name).isNull = true) ∨
      (s.metricsMap.lookup name = some (s.metric name) ∧ (s.metric name).isNull = false ∧
        (s.metric name).InUse env.platform) := by
  unfold Internal.metric
  cases hm : s.metricsMap.lookup name with
  | none => exact .inl ⟨rfl, rfl, rfl⟩
  | some metricPtr => exact .inr ⟨rfl, (h.metric hm).isNull, h.metric hm⟩

/-- What becomes of the map, where a message is processed. -/
theorem processEventMessage_ok {sur : Surroundings}
    (h : s.processEventMessage env cfg message sur = .ok s') :
    ∃ metricPtr r,
      (if (s.metric message.destinationName).isNull then newMetric env cfg message
        else .ok (s.metric message.destinationName)) = .ok metricPtr ∧
      processMetric env cfg sur.heap metricPtr message = .ok r ∧
      s'.metricsMap = s.metricsMap.insert message.destinationName r.1 ∧ s'.read = s.read ++ r.2.toList := by
  obtain ⟨metricPtr, hptr, h⟩ := bind_eq_ok.1 h
  obtain ⟨r, hr, h⟩ := bind_eq_ok.1 h
  obtain ⟨_, -, h⟩ := bind_eq_ok.1 h
  obtain ⟨_, -, h⟩ := bind_eq_ok.1 h
  cases h
  exact ⟨metricPtr, r, hptr, hr, rfl, rfl⟩

theorem updateMetric_inUse {metricPtr : MetricPtr K} (h : metricPtr.InUse env.platform) (t : Int) :
    (updateMetric env t metricPtr).InUse env.platform := by
  rcases metricPtr with (_ | counter) | (_ | gauge) | (_ | timer) | (_ | metric)
  case counter.some =>
    obtain ⟨config, h⟩ := h
    exact ⟨config, h.updateTime t⟩
  case gauge.some =>
    obtain ⟨config, h⟩ := h
    exact ⟨config, h.updateTime t⟩
  case timer.some =>
    obtain ⟨config, h⟩ := h
    exact ⟨config, h.updateTime t⟩
  case attribute.some => trivial
  all_goals exact h.elim

variable [IsStrictOrderedRing K]

/-- Everything that can be created is created without an exception. -/
structure Creates (env : Environment K) (cfg : Config) : Prop where
  fit : cfg.bins.Fit env.platform
  creatable : ∀ name type, Creatable env cfg name type

/-- One message. -/
theorem Inv.processEventMessage (h : Inv env s) (sur : Surroundings) :
    Ends (Inv env) (ThrownUnless (Creates env cfg)) (s.processEventMessage env cfg message sur) := by
  refine Ends.bind (P := fun metricPtr => metricPtr.InUse env.platform) ?_ fun metricPtr hptr => ?_
  · rcases h.metric_cases message.destinationName with ⟨-, -, hnull⟩ | ⟨-, hnull, hptr⟩
    · rw [hnull]
      have hends := (newMetric_returnsIff env cfg message).ends.mono fun _ h => h.1
      exact thrownUnless_mono hends fun hc => hc.creatable _ _
    · rw [hnull]
      exact hptr
  · refine (thrownUnless_mono (processMetric_ends hptr) Creates.fit).bind fun r hr => ?_
    refine (thrownUnless (Gauge.set_ends h.processTime _ _)).bind fun processTime hprocessTime => ?_
    refine (thrownUnless (Gauge.set_ends h.size _ _)).bind fun size hsize => ?_
    refine ⟨fun entry hentry => ?_, hsize, hprocessTime⟩
    change entry ∈ (s.metricsMap.insert message.destinationName r.1).entries at hentry
    rw [AList.entries_insert, List.mem_cons] at hentry
    rcases hentry with rfl | hentry
    · exact hr
    · exact h.metrics entry ((List.kerase_sublist _ _).subset hentry)

theorem Inv.initialized {now : Int} (h : initialized env now = .ok s) : Inv env s := by
  have hsize : Ends (fun size => size.values.InUse env.platform sizeOpts.values) (fun _ => True)
      (Gauge.new env.platform sizeOpts) := (Gauge.new_returnsIff _).ends.mono_fault fun _ _ => trivial
  have hprocessTime : Ends (fun processTime => processTime.values.InUse env.platform processTimeOpts.values)
      (fun _ => True) (Gauge.new env.platform processTimeOpts) :=
    (Gauge.new_returnsIff _).ends.mono_fault fun _ _ => trivial
  have hinv : Ends (Inv env) (fun _ => True) (Internal.initialized env now) := by
    refine hsize.bind fun size hsize => ?_
    refine ((Gauge.set_ends hsize 0 now).mono_fault fun _ _ => trivial).bind fun size hsize => ?_
    exact hprocessTime.bind fun processTime hprocessTime => ⟨by simp, hsize, hprocessTime⟩
  exact hinv.of_ok h

omit [IsStrictOrderedRing K] in
theorem initialized_metricsMap {now : Int} (h : initialized env now = .ok s) : s.metricsMap = ∅ := by
  obtain ⟨_, -, h⟩ := bind_eq_ok.1 h
  obtain ⟨_, -, h⟩ := bind_eq_ok.1 h
  obtain ⟨_, -, h⟩ := bind_eq_ok.1 h
  cases h
  rfl

/-- One action. -/
theorem Inv.step (h : Inv env s) (action : Action) :
    Ends (Inv env) (ThrownUnless (Creates env cfg)) (s.step env cfg action) := by
  cases action with
  | processEventMessage message sur => exact h.processEventMessage sur
  | updateMetrics t =>
    unfold Internal.step Internal.updateMetrics
    split_ifs
    · exact fun _ => notThrown_undefined
    · refine ⟨fun entry hentry => ?_, h.size, h.processTime⟩
      obtain ⟨old, hold, rfl⟩ := List.mem_map.1 hentry
      exact updateMetric_inUse (h.metrics old hold) t
  | updateStats t => exact ⟨h.metrics, h.size.updateTime t, h.processTime.updateTime t⟩

/-- **Every reachable map** holds metrics that are there and in use. -/
theorem Reachable.inv (h : Reachable env cfg s) : Inv env s := by
  obtain ⟨now, s₀, actions, h₀, hrun⟩ := h
  have hstep : ∀ s action, Inv env s → Ends (Inv env) (ThrownUnless (Creates env cfg)) (s.step env cfg action) :=
    fun _ action hI => hI.step action
  exact (run_ends hstep actions (Inv.initialized h₀)).of_ok hrun

end Internal

end Handystats
