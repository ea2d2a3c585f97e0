/-
`internal`: the map of all metrics, and what one event message does to it.

`process_event_message` looks the name up, makes a metric of the message's
`destination_type` if there is none, and hands the message to the metric it
found or made. `read` is history: as what `event_data` has been read, message
by message.
-/
import Mathlib.Data.List.AList
import Handystats.ConfigJson
import Handystats.Events

namespace Handystats

open Effect

variable {K : Type} [Field K] [LinearOrder K]

/-- `metrics_map`. -/
abbrev MetricsMap (K : Type) := AList fun _ : String => MetricPtr K

/-- The metrics, with `stats::size` and `stats::process_time`. -/
structure Internal (K : Type) where
  metricsMap : MetricsMap K
  size : Gauge K
  processTime : Gauge K
  read : List PayloadKind

/-- What a message is processed with: the values that attribute messages point
to, and the two readings of the clock. -/
structure Surroundings where
  heap : AttributeHeap
  processStartTime : Int
  processEndTime : Int

variable (env : Environment K) (cfg : Config)

/-! ## Creation -/

/-- The options of a type, configured by a pattern section if there is one. -/
def configuredBy {α : Type} (configure : Json → Effect Fault α Unit) (opts : α) :
    Option Json → Except Fault α
  | none => .ok opts
  | some patternCfg =>
    match configure patternCfg opts with
    | (.ok _, opts) => .ok opts
    | (.error e, _) => .error e

/-- The metric that is made for a message. -/
def newMetric (message : EventMessage) : Except Fault (MetricPtr K) :=
  let patternCfg := selectPattern env.fnmatch cfg.patternOpts message.destinationName
  match message.destinationType with
  | .counter => do
    let counterOpts ← configuredBy CounterConfig.configure cfg.counterOpts patternCfg
    let counter ← Counter.new env.platform counterOpts
    .ok (.counter (some counter))
  | .gauge => do
    let gaugeOpts ← configuredBy GaugeConfig.configure cfg.gaugeOpts patternCfg
    let gauge ← Gauge.new env.platform gaugeOpts
    .ok (.gauge (some gauge))
  | .timer => do
    let timerOpts ← configuredBy TimerConfig.configure cfg.timerOpts patternCfg
    let timer ← Timer.new env.platform timerOpts
    .ok (.timer (some timer))
  | .attribute => .ok (.attribute (some Attribute.new))

/-! ## Processing -/

/-- `process_event_message(metric_ptr, message)`: what the metric becomes, and
as what it has read the message. -/
def processMetric (heap : AttributeHeap) (metricPtr : MetricPtr K) (message : EventMessage) :
    Except Fault (MetricPtr K × Option PayloadKind) :=
  match metricPtr with
  | .counter (some counter) => do
    let (counter, kind) ← CounterEvents.processEvent env cfg.counterOpts counter message
    .ok (.counter (some counter), kind)
  | .gauge (some gauge) => do
    let (gauge, kind) ← GaugeEvents.processEvent env cfg.gaugeOpts gauge message
    .ok (.gauge (some gauge), kind)
  | .timer (some timer) => do
    let (timer, kind) ← TimerEvents.processEvent env cfg.timerOpts timer message
    .ok (.timer (some timer), kind)
  | .attribute (some metric) => do
    let (metric, kind) ← AttributeEvents.processEvent heap metric message
    .ok (.attribute (some metric), kind)
  | _ => .error .undefinedBehaviour

namespace Internal

/-- `metrics_map[name]`. -/
def metric (s : Internal K) (name : String) : MetricPtr K := (s.metricsMap.lookup name).getD .default

/-- `process_event_message(message)`. -/
def processEventMessage (s : Internal K) (message : EventMessage) (sur : Surroundings) :
    Except Fault (Internal K) := do
  let found := s.metric message.destinationName
  let metricPtr ← (if found.isNull then newMetric env cfg message else .ok found)
  let (metricPtr, kind) ← processMetric env cfg sur.heap metricPtr message
  let metricsMap := s.metricsMap.insert message.destinationName metricPtr
  let elapsed := env.platform.clock.countIn Timer.valueUnit
    ⟨sur.processEndTime - sur.processStartTime, env.platform.clock.unit⟩
  let processTime ← s.processTime.set env.platform (toDouble elapsed) sur.processEndTime
  let size ← s.size.set env.platform (toDouble metricsMap.entries.length) sur.processEndTime
  .ok ⟨metricsMap, size, processTime, s.read ++ kind.toList⟩

/-- What `update_metrics` does to one metric. -/
def updateMetric (timestamp : Int) : MetricPtr K → MetricPtr K
  | .counter metric => .counter (metric.map fun counter => counter.updateStatistics env.platform timestamp)
  | .gauge metric => .gauge (metric.map fun gauge => gauge.updateStatistics env.platform timestamp)
  | .timer metric => .timer (metric.map fun timer => timer.updateStatistics env.platform timestamp)
  | .attribute metric => .attribute metric

/-- A map with all its metrics changed. -/
def mapMetrics (f : MetricPtr K → MetricPtr K) (metricsMap : MetricsMap K) : MetricsMap K where
  entries := metricsMap.entries.map fun entry => ⟨entry.1, f entry.2⟩
  nodupKeys := by
    have h := metricsMap.nodupKeys
    rw [List.NodupKeys, List.keys, List.map_map] at *
    exact h

/-- The pointers `update_metrics` follows: all but those to attributes. -/
def followed (metricPtr : MetricPtr K) : Bool := metricPtr.which ≠ .attribute

/-- `update_metrics`: undefined at a null pointer. -/
def updateMetrics (s : Internal K) (timestamp : Int) : Except Fault (Internal K) :=
  if s.metricsMap.entries.any fun entry => followed entry.2 && entry.2.isNull then
    .error .undefinedBehaviour
  else .ok { s with metricsMap := mapMetrics (updateMetric env timestamp) s.metricsMap }

/-- `stats::update`. -/
def updateStats (s : Internal K) (timestamp : Int) : Internal K :=
  { s with
    size := s.size.updateStatistics env.platform timestamp
    processTime := s.processTime.updateStatistics env.platform timestamp }

/-- The options of `stats::size`. -/
def sizeOpts : GaugeConfig := ⟨{ StatisticsConfig.default with tags := Tag.value.bit }⟩

/-- The options of `stats::process_time`. -/
def processTimeOpts : GaugeConfig :=
  ⟨{ StatisticsConfig.default with tags := Tag.movingAvg.bit, movingInterval := ⟨1, .sec⟩ }⟩

/-- `internal::initialize`, at the time `now`. -/
def initialized (now : Int) : Except Fault (Internal K) := do
  let size ← Gauge.new env.platform sizeOpts
  let size ← size.set env.platform 0 now
  let processTime ← Gauge.new env.platform processTimeOpts
  .ok ⟨∅, size, processTime, []⟩

/-! ## Runs -/

/-- What happens to the metrics: a message is processed, or the dump brings
them up to date. -/
inductive Action where
  | processEventMessage (message : EventMessage) (sur : Surroundings)
  | updateMetrics (timestamp : Int)
  | updateStats (timestamp : Int)

/-- One action. -/
def step (s : Internal K) : Action → Except Fault (Internal K)
  | .processEventMessage message sur => s.processEventMessage env cfg message sur
  | .updateMetrics timestamp => s.updateMetrics env timestamp
  | .updateStats timestamp => .ok (s.updateStats env timestamp)

open Runs

/-- `s` is reached from an initialized library. -/
def Reachable (s : Internal K) : Prop :=
  ∃ now s₀ actions, initialized env now = .ok s₀ ∧ run (step env cfg) s₀ actions = .ok s

/-- A clock in nanoseconds, no `double` but 0, and `"*"`, which matches any name. -/
def sampleEnvironment : Environment ℚ where
  platform := .inUnit .nsec
  doubleValue := fun _ => 0
  fnmatch := fun pattern _ => decide (pattern = "*".toList)

/-- One section for every name. -/
def sampleDocument (config : List (String × Json)) : Json := .object [("*", .object config)]

theorem sampleDocument_patternSections (config : List (String × Json)) :
    Config.patternSections (sampleDocument config).members = [(["*".toList], .object config)] := by
  have hexpand : Pattern.expandPattern (cString "*").toList = .ok ["*".toList] := by decide +kernel
  have hreserved : ¬ cString "*" ∈ Config.reservedSections := by decide +kernel
  simp [Config.patternSections, sampleDocument, Json.members, hexpand, hreserved]

theorem sampleDocument_selectPattern (config : List (String × Json)) (name : String) :
    selectPattern sampleEnvironment.fnmatch (Config.patternSections (sampleDocument config).members) name =
      some (.object config) := by
  rw [sampleDocument_patternSections]
  simp [selectPattern, sampleEnvironment]

end Internal

end Handystats
