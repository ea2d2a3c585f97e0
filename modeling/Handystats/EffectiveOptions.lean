/-
Which options a metric holds.

They are resolved when the metric is made, from its type's options and the
pattern section that its name selects. An `INIT` event makes the metric anew,
and from its type's options alone. `effective_options_iff` says of a whole run
that the metric's options are the resolved ones at every moment just where no
`INIT` event comes or the section changes nothing.
-/
import Handystats.InternalFacts

namespace Handystats

open Runs

/-- What a metric holds of the options of its type. -/
structure MetricOptions where
  idleTimeout : Option Duration
  values : StatisticsConfig
  deriving DecidableEq

/-- The options that a metric holds; an attribute has none. -/
def MetricPtr.options {K : Type} : MetricPtr K → Option MetricOptions
  | .counter metric => metric.map fun counter => ⟨none, counter.values.config⟩
  | .gauge metric => metric.map fun gauge => ⟨none, gauge.values.config⟩
  | .timer metric => metric.map fun timer => ⟨some timer.idleTimeout, timer.values.config⟩
  | .attribute _ => none

/-- The options of a type. -/
def typeOptions (cfg : Config) : MetricIndex → Option MetricOptions
  | .counter => some ⟨none, cfg.counterOpts.values⟩
  | .gauge => some ⟨none, cfg.gaugeOpts.values⟩
  | .timer => some ⟨some cfg.timerOpts.idleTimeout, cfg.timerOpts.values⟩
  | .attribute => none

/-- The options of a type, overridden by a pattern section if there is one. -/
def overriddenOptions (cfg : Config) (found : Option Json) : MetricIndex → Except Fault (Option MetricOptions)
  | .counter => do
    let opts ← configuredBy CounterConfig.configure cfg.counterOpts found
    .ok (some ⟨none, opts.values⟩)
  | .gauge => do
    let opts ← configuredBy GaugeConfig.configure cfg.gaugeOpts found
    .ok (some ⟨none, opts.values⟩)
  | .timer => do
    let opts ← configuredBy TimerConfig.configure cfg.timerOpts found
    .ok (some ⟨some opts.idleTimeout, opts.values⟩)
  | .attribute => .ok none

/-- The event makes the metric anew. -/
def isInit : MetricIndex → Nat → Bool
  | .counter, eventType => eventType = CounterEvents.init
  | .gauge, eventType => eventType = GaugeEvents.init
  | .timer, eventType => eventType = TimerEvents.init
  | .attribute, _ => false

variable {K : Type} [Field K] [LinearOrder K] {env : Environment K} {cfg : Config}
  {message : EventMessage}

/-! ## Statistics hold their options -/

section

variable {pf : Platform K} {st st' : Statistics K} {gauge gauge' : Gauge K} {counter counter' : Counter K}

theorem Statistics.reset_config (h : st.reset pf = .ok st') : st'.config = st.config := by
  unfold Statistics.reset at h
  split_ifs at h
  cases h
  rfl

theorem Statistics.update_config {v : K} {t : Int} (h : st.update pf v t = .ok st') :
    st'.config = st.config := by
  obtain ⟨hist, -, rfl⟩ := update_ok.1 h
  rfl

theorem Gauge.new_config {opts : GaugeConfig} (h : Gauge.new pf opts = .ok gauge) :
    gauge.values.config = opts.values := by
  obtain ⟨values, hnew, h⟩ := bind_eq_ok.1 h
  cases h
  exact Statistics.reset_config hnew

theorem Gauge.set_config {v : K} {t : Int} (h : gauge.set pf v t = .ok gauge') :
    gauge'.values.config = gauge.values.config := by
  obtain ⟨values, hset, h⟩ := bind_eq_ok.1 h
  cases h
  exact Statistics.update_config hset

theorem Counter.new_config {opts : CounterConfig} (h : Counter.new pf opts = .ok counter) :
    counter.values.config = opts.values := by
  obtain ⟨values, hnew, h⟩ := bind_eq_ok.1 h
  cases h
  exact Statistics.reset_config hnew

theorem Counter.init_config {v : Int64} {t : Int} (h : counter.init pf v t = .ok counter') :
    counter'.values.config = counter.values.config := by
  obtain ⟨values, hreset, h⟩ := bind_eq_ok.1 h
  obtain ⟨values', hupdate, h⟩ := bind_eq_ok.1 h
  cases h
  exact (Statistics.update_config hupdate).trans (Statistics.reset_config hreset)

theorem Counter.changed_config {change : Int64 → Int64} {t : Int}
    (h : counter.changed pf change t = .ok counter') : counter'.values.config = counter.values.config := by
  obtain ⟨counter₁, hinit, h⟩ := bind_eq_ok.1 h
  obtain ⟨values, hupdate, h⟩ := bind_eq_ok.1 h
  cases h
  have hconfig : counter₁.values.config = counter.values.config := by
    split_ifs at hinit
    · exact Counter.init_config hinit
    · cases hinit
      rfl
  exact (Statistics.update_config hupdate).trans hconfig

/-- What a timer holds of its options. -/
def Timer.options (timer : Timer (Statistics K)) : Duration × StatisticsConfig :=
  (timer.idleTimeout, timer.values.config)

variable {timer timer' : Timer (Statistics K)}

theorem Timer.new_options {opts : TimerConfig} (h : Timer.new pf opts = .ok timer) :
    timer.options = (opts.idleTimeout, opts.values) := by
  obtain ⟨values, hnew, h⟩ := bind_eq_ok.1 h
  cases h
  exact congrArg (Prod.mk _) (Statistics.reset_config hnew)

omit [Field K] [LinearOrder K] in
theorem Timer.checkIdleTimeout_options (ck : Clock) (timer : Timer (Statistics K)) (t : Int) (force : Bool) :
    (timer.checkIdleTimeout ck t force).options = timer.options := by
  unfold Timer.checkIdleTimeout
  split_ifs <;> rfl

omit [Field K] [LinearOrder K] in
theorem Timer.heartbeat_options (ck : Clock) (timer : Timer (Statistics K)) (id : UInt64) (t : Int) :
    (timer.heartbeat ck id t).options = timer.options := by
  rw [← Timer.checkIdleTimeout_options ck timer t false]
  unfold Timer.heartbeat Timer.heartbeaten
  split
  · rfl
  · split_ifs <;> rfl

theorem Timer.set_options {measurement : Duration} {t : Int}
    (h : timer.set pf.clock (Timer.feed pf) measurement t = .ok timer') : timer'.options = timer.options := by
  obtain ⟨values, hfeed, h⟩ := bind_eq_ok.1 h
  cases h
  exact congrArg (Prod.mk _) (Statistics.update_config hfeed)

theorem Timer.stop_options {id : UInt64} {t : Int}
    (h : timer.stop pf.clock (Timer.feed pf) id t = .ok timer') : timer'.options = timer.options := by
  rw [← Timer.checkIdleTimeout_options pf.clock timer t false]
  unfold Timer.stop Timer.stopped at h
  split at h
  · cases h
    rfl
  · split_ifs at h
    · cases h
      rfl
    · obtain ⟨values, hfeed, h⟩ := bind_eq_ok.1 h
      cases h
      exact congrArg (Prod.mk _) (Statistics.update_config hfeed)

end

/-! ## One metric -/

/-- What a metric is made with. -/
theorem newMetric_options {metricPtr : MetricPtr K} (h : newMetric env cfg message = .ok metricPtr) :
    overriddenOptions cfg (selectPattern env.fnmatch cfg.patternOpts message.destinationName)
      message.destinationType = .ok metricPtr.options := by
  unfold newMetric at h
  unfold overriddenOptions
  cases htype : message.destinationType with
  | counter =>
    rw [htype] at h
    obtain ⟨opts, hopts, h⟩ := bind_eq_ok.1 h
    obtain ⟨counter, hnew, h⟩ := bind_eq_ok.1 h
    cases h
    simp only [hopts, MetricPtr.options, Option.map_some, Counter.new_config hnew]
    rfl
  | gauge =>
    rw [htype] at h
    obtain ⟨opts, hopts, h⟩ := bind_eq_ok.1 h
    obtain ⟨gauge, hnew, h⟩ := bind_eq_ok.1 h
    cases h
    simp only [hopts, MetricPtr.options, Option.map_some, Gauge.new_config hnew]
    rfl
  | timer =>
    rw [htype] at h
    obtain ⟨opts, hopts, h⟩ := bind_eq_ok.1 h
    obtain ⟨timer, hnew, h⟩ := bind_eq_ok.1 h
    cases h
    obtain ⟨hidle, hvalues⟩ := Prod.mk.inj (Timer.new_options hnew)
    simp only [hopts, MetricPtr.options, Option.map_some, hidle, hvalues]
    rfl
  | _ =>
    rw [htype] at h
    cases h
    rfl

theorem CounterEvents.processEvent_options {opts : CounterConfig} {counter : Counter K}
    {r : Counter K × Option PayloadKind} (h : processEvent env opts counter message = .ok r) :
    r.1.values.config = if message.eventType = init then opts.values else counter.values.config := by
  unfold processEvent at h
  split_ifs at h ⊢ with h₀ h₁ h₂
  · obtain ⟨_, hinit, h⟩ := bind_eq_ok.1 h
    cases h
    obtain ⟨counter', hnew, hinit⟩ := bind_eq_ok.1 hinit
    exact (Counter.init_config hinit).trans (Counter.new_config hnew)
  · obtain ⟨_, hincrement, h⟩ := bind_eq_ok.1 h
    cases h
    unfold processIncrementEvent Counter.increment at hincrement
    exact Counter.changed_config hincrement
  · obtain ⟨_, hdecrement, h⟩ := bind_eq_ok.1 h
    cases h
    unfold processDecrementEvent Counter.decrement at hdecrement
    exact Counter.changed_config hdecrement
  · cases h
    rfl

theorem GaugeEvents.processEvent_options {opts : GaugeConfig} {gauge : Gauge K}
    {r : Gauge K × Option PayloadKind} (h : processEvent env opts gauge message = .ok r) :
    r.1.values.config = if message.eventType = init then opts.values else gauge.values.config := by
  unfold processEvent at h
  split_ifs at h ⊢ with h₀ h₁
  · obtain ⟨_, hinit, h⟩ := bind_eq_ok.1 h
    cases h
    obtain ⟨gauge', hnew, hset⟩ := bind_eq_ok.1 hinit
    exact (Gauge.set_config hset).trans (Gauge.new_config hnew)
  · obtain ⟨_, hset, h⟩ := bind_eq_ok.1 h
    cases h
    exact Gauge.set_config hset
  · cases h
    rfl

theorem TimerEvents.processEvent_options {opts : TimerConfig} {timer : Timer (Statistics K)}
    {r : Timer (Statistics K) × Option PayloadKind} (h : processEvent env opts timer message = .ok r) :
    r.1.options = if message.eventType = init then (opts.idleTimeout, opts.values) else timer.options := by
  unfold processEvent at h
  split_ifs at h ⊢ with h₀ h₁ h₂ h₃ h₄ h₅
  · obtain ⟨_, hinit, h⟩ := bind_eq_ok.1 h
    cases h
    obtain ⟨timer', hnew, hstart⟩ := bind_eq_ok.1 hinit
    cases hstart
    exact (Timer.checkIdleTimeout_options _ timer' _ _).trans (Timer.new_options hnew)
  · cases h
    exact Timer.checkIdleTimeout_options _ timer _ _
  · obtain ⟨_, hstop, h⟩ := bind_eq_ok.1 h
    cases h
    exact Timer.stop_options hstop
  · cases h
    exact Timer.checkIdleTimeout_options _ timer _ _
  · cases h
    exact Timer.heartbeat_options _ timer _ _
  · obtain ⟨_, hset, h⟩ := bind_eq_ok.1 h
    cases h
    exact Timer.set_options hset
  · cases h
    rfl

/-- What a message makes of a metric's options. -/
theorem processMetric_options {heap : AttributeHeap} {metricPtr : MetricPtr K}
    {r : MetricPtr K × Option PayloadKind} (h : processMetric env cfg heap metricPtr message = .ok r) :
    r.1.options = if isInit metricPtr.which message.eventType then typeOptions cfg metricPtr.which
      else metricPtr.options := by
  rcases metricPtr with (_ | counter) | (_ | gauge) | (_ | timer) | (_ | metric)
  case counter.some =>
    obtain ⟨_, hr, h⟩ := bind_eq_ok.1 h
    cases h
    have hconfig := CounterEvents.processEvent_options hr
    simp only [MetricPtr.options, MetricPtr.which, isInit, typeOptions, Option.map_some, hconfig,
      decide_eq_true_eq]
    split_ifs <;> rfl
  case gauge.some =>
    obtain ⟨_, hr, h⟩ := bind_eq_ok.1 h
    cases h
    have hconfig := GaugeEvents.processEvent_options hr
    simp only [MetricPtr.options, MetricPtr.which, isInit, typeOptions, Option.map_some, hconfig,
      decide_eq_true_eq]
    split_ifs <;> rfl
  case timer.some =>
    obtain ⟨r', hr, h⟩ := bind_eq_ok.1 h
    cases h
    have hoptions := TimerEvents.processEvent_options hr
    simp only [MetricPtr.options, MetricPtr.which, isInit, typeOptions, Option.map_some, decide_eq_true_eq]
    split_ifs at hoptions ⊢
    · obtain ⟨hidle, hvalues⟩ := Prod.mk.inj hoptions
      rw [hidle, hvalues]
    · obtain ⟨hidle, hvalues⟩ := Prod.mk.inj hoptions
      rw [hidle, hvalues]
  case attribute.some =>
    obtain ⟨_, -, h⟩ := bind_eq_ok.1 h
    cases h
    rfl
  all_goals cases h

/-! ## Runs -/

namespace Internal

variable {s s' s₀ : Internal K} {name : String} {type : MetricIndex}

/-- The metric under the name, if there is one, is of this type and holds
these options. -/
def Holds (s : Internal K) (name : String) (type : MetricIndex)
    (options : Except Fault (Option MetricOptions)) : Prop :=
  ∀ metricPtr, s.metricsMap.lookup name = some metricPtr →
    metricPtr.which = type ∧ options = .ok metricPtr.options

/-- The action is an `INIT` event for a metric of this name and type. -/
def Action.Inits (name : String) (type : MetricIndex) : Action → Prop
  | .processEventMessage message _ => message.destinationName = name ∧ isInit type message.eventType = true
  | _ => False

/-- Messages to this name are of this type. -/
def Action.OfType (name : String) (type : MetricIndex) : Action → Prop
  | .processEventMessage message _ => message.destinationName = name → message.destinationType = type
  | _ => True

omit [Field K] [LinearOrder K] in
theorem lookup_mapMetrics (f : MetricPtr K → MetricPtr K) (metricsMap : MetricsMap K) (name : String) :
    (mapMetrics f metricsMap).lookup name = (metricsMap.lookup name).map f :=
  List.dlookup_map₂ (f := fun _ => f) name

theorem updateMetric_options (metricPtr : MetricPtr K) (t : Int) :
    (updateMetric env t metricPtr).options = metricPtr.options := by
  rcases metricPtr with (_ | counter) | (_ | gauge) | (_ | timer) | (_ | metric)
  all_goals first
    | rfl
    | simp [updateMetric, MetricPtr.options, Counter.updateStatistics, Gauge.updateStatistics,
        Timer.updateStatistics]

theorem updateMetric_which (metricPtr : MetricPtr K) (t : Int) :
    (updateMetric env t metricPtr).which = metricPtr.which := by
  cases metricPtr <;> rfl

variable [IsStrictOrderedRing K]

omit [IsStrictOrderedRing K] in
/-- A message to the name: its metric is of the type, and its options are the
overridden ones or, after an `INIT` event, those of the type. -/
theorem Inv.message_options (hI : Inv env s) {sur : Surroundings}
    (hs : s.processEventMessage env cfg message sur = .ok s')
    (hold : s.Holds message.destinationName message.destinationType (overriddenOptions cfg
      (selectPattern env.fnmatch cfg.patternOpts message.destinationName) message.destinationType)) :
    ∃ metricPtr, s'.metricsMap.lookup message.destinationName = some metricPtr ∧
      metricPtr.which = message.destinationType ∧
      (if isInit message.destinationType message.eventType then
          metricPtr.options = typeOptions cfg message.destinationType
        else overriddenOptions cfg (selectPattern env.fnmatch cfg.patternOpts message.destinationName)
          message.destinationType = .ok metricPtr.options) := by
  obtain ⟨metricPtr, r, hptr, hr, hmap, -⟩ := processEventMessage_ok hs
  have hbefore : metricPtr.which = message.destinationType ∧
      overriddenOptions cfg (selectPattern env.fnmatch cfg.patternOpts message.destinationName)
        message.destinationType = .ok metricPtr.options := by
    rcases hI.metric_cases message.destinationName with ⟨-, -, hnull⟩ | ⟨hfound, hnull, -⟩
    · rw [hnull, if_pos rfl] at hptr
      exact ⟨((newMetric_returnsIff env cfg message).ends.of_ok hptr).2, newMetric_options hptr⟩
    · rw [hnull] at hptr
      cases hptr
      exact hold _ hfound
  refine ⟨r.1, by rw [hmap, AList.lookup_insert], (processMetric_which hr).trans hbefore.1, ?_⟩
  have hoptions := processMetric_options hr
  rw [hbefore.1] at hoptions
  split_ifs at hoptions ⊢
  · exact hoptions
  · rw [hoptions]
    exact hbefore.2

/-- The options that the name and the type determine. -/
def optionsOf (env : Environment K) (cfg : Config) (name : String) (type : MetricIndex) :
    Except Fault (Option MetricOptions) :=
  overriddenOptions cfg (selectPattern env.fnmatch cfg.patternOpts name) type

omit [IsStrictOrderedRing K] in
/-- One action. -/
theorem Holds.step (hI : Inv env s) (h : s.Holds name type (optionsOf env cfg name type)) {action : Action}
    (htype : action.OfType name type)
    (hinit : ¬ action.Inits name type ∨ optionsOf env cfg name type = .ok (typeOptions cfg type))
    (hs : s.step env cfg action = .ok s') : s'.Holds name type (optionsOf env cfg name type) := by
  cases action with
  | processEventMessage message sur =>
    by_cases hname : message.destinationName = name
    · subst hname
      obtain rfl := htype rfl
      obtain ⟨metricPtr, hfound, hwhich, hoptions⟩ := hI.message_options hs h
      intro metricPtr' hfound'
      obtain rfl := Option.some.inj (hfound.symm.trans hfound')
      refine ⟨hwhich, ?_⟩
      split_ifs at hoptions with hisInit
      · rcases hinit with hinit | hinit
        · exact absurd ⟨rfl, hisInit⟩ hinit
        · rw [hinit, hoptions]
      · exact hoptions
    · obtain ⟨_, r, -, -, hmap, -⟩ := processEventMessage_ok hs
      intro metricPtr hfound
      rw [hmap, AList.lookup_insert_ne (Ne.symm hname)] at hfound
      exact h metricPtr hfound
  | updateMetrics t =>
    unfold Internal.step updateMetrics at hs
    split_ifs at hs
    cases hs
    intro metricPtr hfound
    change (mapMetrics _ s.metricsMap).lookup name = _ at hfound
    rw [lookup_mapMetrics, Option.map_eq_some_iff] at hfound
    obtain ⟨old, hold, rfl⟩ := hfound
    rw [updateMetric_which, updateMetric_options]
    exact h old hold
  | updateStats t =>
    cases hs
    exact h

/-- **A metric's options are a function of its name and type**, in every
state of a run, if, and only if, the run has no `INIT` event for it or its
pattern section leaves the options of its type as they are. -/
theorem effective_options_iff {doc : Json} {now : Int} {actions : List Action}
    (hcfg : configJson false (some doc) .default = (.ok true, cfg)) (h₀ : initialized env now = .ok s₀)
    (htype : ∀ action ∈ actions, action.OfType name type) (hrun : run (step env cfg) s₀ actions = .ok s) :
    (∀ pre s', pre <+: actions → run (step env cfg) s₀ pre = .ok s' →
        s'.Holds name type (overriddenOptions cfg
          (selectPattern env.fnmatch (Config.patternSections doc.members) name) type)) ↔
      (∀ action ∈ actions, ¬ action.Inits name type) ∨
        overriddenOptions cfg (selectPattern env.fnmatch (Config.patternSections doc.members) name) type =
          .ok (typeOptions cfg type) := by
  have hpatterns : cfg.patternOpts = Config.patternSections doc.members := Config.configJson_patternOpts hcfg
  rw [← hpatterns]
  change (∀ pre s', pre <+: actions → run (step env cfg) s₀ pre = .ok s' →
      s'.Holds name type (optionsOf env cfg name type)) ↔
    (∀ action ∈ actions, ¬ action.Inits name type) ∨ optionsOf env cfg name type = .ok (typeOptions cfg type)
  constructor
  · intro h
    by_contra hnot
    simp only [not_or, not_forall, not_not] at hnot
    obtain ⟨⟨action, hmem, hinit⟩, hne⟩ := hnot
    obtain ⟨pre, post, rfl⟩ := List.append_of_mem hmem
    obtain ⟨s₁, hpre, hrest⟩ := run_append_ok.1 hrun
    obtain ⟨s₂, hstep, -⟩ := run_cons_ok.1 hrest
    have hbefore := h pre s₁ (List.prefix_append _ _) hpre
    have hafter := h (pre ++ [action]) s₂ (by simp) (run_append_ok.2 ⟨s₁, hpre, run_singleton_ok.2 hstep⟩)
    have hI : Inv env s₁ := Reachable.inv ⟨now, s₀, pre, h₀, hpre⟩
    cases action with
    | processEventMessage message sur =>
      obtain ⟨rfl, hisInit⟩ := hinit
      obtain rfl := htype _ hmem rfl
      obtain ⟨metricPtr, hfound, -, hoptions⟩ := hI.message_options hstep hbefore
      rw [if_pos hisInit] at hoptions
      exact hne ((hafter metricPtr hfound).2.trans (by rw [hoptions]))
    | _ => exact hinit.elim
  · intro hcond pre s' hprefix hpre
    have hkept : (∀ action ∈ pre, action ∈ actions) →
        Inv env s' ∧ s'.Holds name type (optionsOf env cfg name type) := by
      refine run_inv (I := fun done s => (∀ action ∈ done, action ∈ actions) →
        Inv env s ∧ s.Holds name type (optionsOf env cfg name type)) ?_ ?_ hpre
      · intro done s₁ action s₂ hdone hstep hmem
        obtain ⟨hI, hheld⟩ := hdone fun a ha => hmem a (by simp [ha])
        have hin := hmem action (by simp)
        exact ⟨(hI.step action).of_ok hstep, hheld.step hI (htype action hin)
          (hcond.imp_left fun hno => hno action hin) hstep⟩
      · refine fun _ => ⟨Inv.initialized h₀, fun metricPtr hfound => ?_⟩
        rw [initialized_metricsMap h₀] at hfound
        cases hfound
    exact (hkept fun action ha => hprefix.subset ha).2

/-- A section with one tag for every name. -/
def sampleSection : List (String × Json) := [("tags", .array [.string "max"])]

theorem effective_options_sample : ∃ (cfg : Config) (s₀ s : Internal ℚ),
    configJson false (some (sampleDocument sampleSection)) .default = (.ok true, cfg) ∧
    initialized sampleEnvironment 0 = .ok s₀ ∧
    run (step sampleEnvironment cfg) s₀
      [.processEventMessage (GaugeEvents.createSetEvent "requests" 0 1) ⟨fun _ => none, 0, 0⟩] = .ok s ∧
    s.Holds "requests" .gauge (overriddenOptions cfg (selectPattern sampleEnvironment.fnmatch
      (Config.patternSections (sampleDocument sampleSection).members) "requests") .gauge) := by
  let result := configJson false (some (sampleDocument sampleSection)) .default
  let actions : List Action :=
    [.processEventMessage (GaugeEvents.createSetEvent "requests" 0 1) ⟨fun _ => none, 0, 0⟩]
  have hcfg : result = (.ok true, result.2) := Prod.ext (by decide +kernel) rfl
  obtain ⟨s₀, h₀⟩ : ∃ s₀, initialized sampleEnvironment 0 = .ok s₀ := exists_ok_of_toBool (by decide +kernel)
  obtain ⟨s, hs⟩ : ∃ s, (initialized sampleEnvironment 0 >>= fun s₀ =>
      run (step sampleEnvironment result.2) s₀ actions) = .ok s := exists_ok_of_toBool (by decide +kernel)
  rw [h₀] at hs
  have hrun : run (step sampleEnvironment result.2) s₀ actions = .ok s := hs
  have htype : ∀ action ∈ actions, action.OfType "requests" .gauge := by
    simp [actions, Action.OfType, GaugeEvents.createSetEvent]
  have hinit : ∀ action ∈ actions, ¬ action.Inits "requests" .gauge := by
    simp [actions, Action.Inits, GaugeEvents.createSetEvent, isInit, GaugeEvents.set, GaugeEvents.init]
  exact ⟨_, s₀, s, hcfg, h₀, hrun,
    (effective_options_iff hcfg h₀ htype hrun).2 (.inl hinit) actions s List.prefix_rfl hrun⟩

/-- A gauge whose section asks for one tag has all the tags of its type after an
`INIT` event. -/
theorem init_forgets_section : ∃ (cfg : Config) (s₀ s : Internal ℚ),
    configJson false (some (sampleDocument sampleSection)) .default = (.ok true, cfg) ∧
    initialized sampleEnvironment 0 = .ok s₀ ∧
    run (step sampleEnvironment cfg) s₀
      [.processEventMessage (GaugeEvents.createInitEvent "requests" 0 1) ⟨fun _ => none, 0, 0⟩] = .ok s ∧
    ((s.metric "requests").options.map fun opts => opts.values.tags) =
      some StatisticsConfig.default.tags ∧
    ¬ s.Holds "requests" .gauge (overriddenOptions cfg (selectPattern sampleEnvironment.fnmatch
      (Config.patternSections (sampleDocument sampleSection).members) "requests") .gauge) := by
  let result := configJson false (some (sampleDocument sampleSection)) .default
  let actions : List Action :=
    [.processEventMessage (GaugeEvents.createInitEvent "requests" 0 1) ⟨fun _ => none, 0, 0⟩]
  have hcfg : result = (.ok true, result.2) := Prod.ext (by decide +kernel) rfl
  obtain ⟨s₀, h₀⟩ : ∃ s₀, initialized sampleEnvironment 0 = .ok s₀ := exists_ok_of_toBool (by decide +kernel)
  let ran := initialized sampleEnvironment 0 >>= fun s₀ => run (step sampleEnvironment result.2) s₀ actions
  obtain ⟨s, hs⟩ : ∃ s, ran = .ok s := exists_ok_of_toBool (by decide +kernel)
  have htags : (ran.toOption.bind fun s => (s.metric "requests").options.map fun opts => opts.values.tags) =
      some StatisticsConfig.default.tags := by decide +kernel
  have hfound : (ran.toOption.bind fun s => s.metricsMap.lookup "requests").isSome = true := by decide +kernel
  have hasked : ((overriddenOptions result.2 (some (.object sampleSection)) .gauge).toOption.bind fun found =>
      found.map fun opts => opts.values.tags) = some Tag.max.bit := by decide +kernel
  rw [hs] at htags hfound
  have htags : ((s.metric "requests").options.map fun opts => opts.values.tags) =
      some StatisticsConfig.default.tags := htags
  have hrun : run (step sampleEnvironment result.2) s₀ actions = .ok s := by
    unfold ran at hs
    rw [h₀] at hs
    exact hs
  refine ⟨_, s₀, s, hcfg, h₀, hrun, htags, fun hholds => ?_⟩
  rw [sampleDocument_selectPattern] at hholds
  obtain ⟨metricPtr, hmetric⟩ := Option.isSome_iff_exists.1 hfound
  have hmetric : s.metricsMap.lookup "requests" = some metricPtr := hmetric
  rw [(hholds metricPtr hmetric).2] at hasked
  have hasked : (metricPtr.options.map fun opts => opts.values.tags) = some Tag.max.bit := hasked
  rw [Internal.metric, hmetric, Option.getD_some, hasked] at htags
  exact absurd htags (by decide)

end Internal

end Handystats
