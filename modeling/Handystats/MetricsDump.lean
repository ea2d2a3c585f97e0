/-
`metrics_dump`: copies of the metrics, made by the processing thread at most
once per dump interval and published for whoever asks.

A dump is a copy of every metric with statistics and of every attribute,
under its name, and then what the library says about itself, under names of
its own; `map::insert` leaves a name alone that is there already.

`clock` readings are arguments (`Readings`), the one that `create_dump` converts
to system time among them.
-/
import Handystats.DurationOrder
import Handystats.Internal
import Handystats.Library.FirstInsert
import Handystats.QueueStats

namespace Handystats

open FirstInsert

/-- `metric_variant`. -/
inductive MetricVariant (K : Type) where
  | counter (metric : Counter K)
  | gauge (metric : Gauge K)
  | timer (metric : Timer (Statistics K))
  | attribute (metric : Attribute)

/-- The statistics of a metric. -/
def MetricVariant.statistics {K : Type} : MetricVariant K → Option (Statistics K)
  | .counter metric => some metric.values
  | .gauge metric => some metric.values
  | .timer metric => some metric.values
  | .attribute _ => none

/-- The map that is published. -/
abbrev Dump (K : Type) := AList fun _ : String => MetricVariant K

/-- `dump_timestamp`, `dump` and `stats::dump_time`. -/
structure MetricsDump (K : Type) where
  dumpTime : Gauge K
  dumpTimestamp : Int
  dump : Dump K

namespace MetricsDump

variable {K : Type} [Field K] [LinearOrder K] (env : Environment K)

/-- The clock during `create_dump`: at its start, the system time in
nanoseconds, and at its end. -/
structure Readings where
  dumpStartTime : Int
  systemTimestamp : Int
  dumpEndTime : Int

/-- The options of `stats::dump_time`. -/
def dumpTimeOpts : GaugeConfig :=
  ⟨{ StatisticsConfig.default with tags := Tag.movingAvg.bit, movingInterval := ⟨1, .sec⟩ }⟩

/-- `metrics_dump::initialize`, and `finalize`. -/
def initialized : Except Fault (MetricsDump K) := do
  let dumpTime ← Gauge.new env.platform dumpTimeOpts
  .ok ⟨dumpTime, timePointZero, ∅⟩

/-- What `create_dump` copies of a metric: nothing of one without statistics.
Undefined at a null pointer. -/
def copied : MetricPtr K → Except Fault (Option (MetricVariant K))
  | .gauge (some metric) =>
    .ok (if metric.values.config.tags ≠ Tag.empty then some (.gauge metric) else none)
  | .counter (some metric) =>
    .ok (if metric.values.config.tags ≠ Tag.empty then some (.counter metric) else none)
  | .timer (some metric) =>
    .ok (if metric.values.config.tags ≠ Tag.empty then some (.timer metric) else none)
  | .attribute (some metric) => .ok (some (.attribute metric))
  | _ => .error .undefinedBehaviour

/-- The body of the loop. -/
def copyEntry (newDump : Dump K) (entry : Sigma fun _ : String => MetricPtr K) : Except Fault (Dump K) := do
  let metric ← copied entry.2
  match metric with
  | some metric => .ok (insertNew newDump entry.1 metric)
  | none => .ok newDump

/-- The loop of `create_dump` over `metrics_map`. -/
def copyMetrics (metricsMap : MetricsMap K) : Except Fault (Dump K) := metricsMap.entries.foldlM copyEntry ∅

/-- `create_dump`: the dump, and `stats::dump_time` after it. -/
def createDump (interval : Duration) (internal : Internal K) (queue : MessageQueue.Stats K)
    (dumpTime : Gauge K) (readings : Readings) : Except Fault (Dump K × Gauge K) := do
  let newDump ← copyMetrics internal.metricsMap
  let newDump := insertNew newDump "handystats.internal.size" (.gauge internal.size)
  let newDump := insertNew newDump "handystats.internal.process_time" (.gauge internal.processTime)
  let newDump := insertNew newDump "handystats.message_queue.size" (.gauge queue.size)
  let newDump := insertNew newDump "handystats.message_queue.message_wait_time" (.gauge queue.messageWaitTime)
  let newDump := insertNew newDump "handystats.message_queue.pop_count" (.counter queue.popCount)
  let dumpInterval := Attribute.new.set (.int64 (Int64.ofInt (env.platform.clock.countIn .msec interval)))
  let newDump := insertNew newDump "handystats.config.dump_interval" (.attribute dumpInterval)
  let timestamp := Attribute.new.set
    (.int64 (Int64.ofInt (env.platform.clock.countIn .msec ⟨readings.systemTimestamp, .nsec⟩)))
  let newDump := insertNew newDump "handystats.dump_timestamp" (.attribute timestamp)
  let elapsed := env.platform.clock.countIn Timer.valueUnit
    ⟨readings.dumpEndTime - readings.dumpStartTime, env.platform.clock.unit⟩
  let dumpTime ← dumpTime.set env.platform (toDouble elapsed) readings.dumpEndTime
  .ok (insertNew newDump "handystats.metrics_dump.dump_time" (.gauge dumpTime), dumpTime)

/-- What `update` asks before it dumps: dumps are made, and the last one is
longer ago than the interval. -/
def due (interval : Duration) (dumpTimestamp systemTime : Int) : Bool :=
  interval.rep ≠ 0 &&
    (Duration.comparisons env.platform.clock.cyclesPerNanosec).gt
      ⟨systemTime - dumpTimestamp, env.platform.clock.unit⟩ interval

end MetricsDump

end Handystats
