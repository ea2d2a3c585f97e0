/-
The processing thread's own data: the metrics, the statistics of the queue and
the published dump; and a turn of `run_processor`'s loop.

A turn either finds the queue not empty and takes what `pop` gives it, or
sleeps; then it lets `metrics_dump::update` see whether a dump is due. What the
turn meets with (the message, the clock) is in its argument.
-/
import Handystats.MetricsDump

namespace Handystats

variable {K : Type} [Field K] [LinearOrder K]

/-- What the processing thread works on. -/
structure Processor (K : Type) where
  internal : Internal K
  queue : MessageQueue.Stats K
  metricsDump : MetricsDump K
  lastMessageTimestamp : Int

/-- What `run_processor` finds: a message, with what it is processed with, the
clock in `pop` and the messages left; a queue that is not empty but gives none;
or an empty one, at a time of `tsc_clock`. -/
inductive Found where
  | message (message : EventMessage) (sur : Surroundings) (currentTime : Int) (mqSize : Nat)
  | nothing
  | empty (now : Int)

/-- One turn of the loop: what it finds, the time that `metrics_dump::update` is
called for, and the readings of the clock if it dumps. -/
structure Turn where
  found : Found
  systemTime : Int
  readings : MetricsDump.Readings

namespace Processor

variable (env : Environment K) (cfg : Config)

/-- What `initialize` leaves, at the times that its parts read. -/
def initialized (internalNow queueNow : Int) : Except Fault (Processor K) := do
  let metricsDump ← MetricsDump.initialized env
  let internal ← Internal.initialized env internalNow
  let queue ← MessageQueue.Stats.initialized env.platform queueNow
  .ok ⟨internal, queue, metricsDump, timePointZero⟩

/-- `process_message_queue`, or the branch that sleeps. -/
def take (s : Processor K) : Found → Except Fault (Processor K)
  | .message message sur currentTime mqSize => do
    let queue ← s.queue.popped env.platform mqSize message currentTime
    let internal ← s.internal.processEventMessage env cfg message sur
    .ok { s with
      internal := internal
      queue := queue
      lastMessageTimestamp := max s.lastMessageTimestamp message.timestamp }
  | .nothing => .ok s
  | .empty now => .ok { s with lastMessageTimestamp := max s.lastMessageTimestamp now }

/-- `metrics_dump::update`, when a dump is due. -/
def publish (s : Processor K) (systemTime internalTime : Int) (readings : MetricsDump.Readings) :
    Except Fault (Processor K) := do
  let internal ← s.internal.updateMetrics env internalTime
  let internal := internal.updateStats env systemTime
  let queue := s.queue.update env.platform systemTime
  let dumpTime := s.metricsDump.dumpTime.updateStatistics env.platform systemTime
  let (dump, dumpTime) ←
    MetricsDump.createDump env cfg.metricsDumpOpts.interval internal queue dumpTime readings
  .ok { s with
    internal := internal
    queue := queue
    metricsDump := ⟨dumpTime, systemTime, dump⟩ }

/-- `metrics_dump::update`. -/
def update (s : Processor K) (systemTime internalTime : Int) (readings : MetricsDump.Readings) :
    Except Fault (Processor K) :=
  if MetricsDump.due env cfg.metricsDumpOpts.interval s.metricsDump.dumpTimestamp systemTime then
    s.publish env cfg systemTime internalTime readings
  else .ok s

/-- One turn. -/
def turn (s : Processor K) (t : Turn) : Except Fault (Processor K) := do
  let s ← s.take env cfg t.found
  s.update env cfg t.systemTime s.lastMessageTimestamp t.readings

open Runs

/-- `s` is reached from an initialized library, by these turns. -/
def RunsTo (turns : List Turn) (s : Processor K) : Prop :=
  ∃ internalNow queueNow s₀, initialized env internalNow queueNow = .ok s₀ ∧
    run (turn env cfg) s₀ turns = .ok s

/-- Two messages, half a window apart, with a dump in between if dumps are made. -/
def sampleTurns : List Turn :=
  [⟨.message (GaugeEvents.createSetEvent "name" 0 100) ⟨fun _ => none, 0, 0⟩ 110 0, 100000000, ⟨0, 0, 0⟩⟩,
    ⟨.empty 300000000, 700000000, ⟨700000000, 700000000, 700000010⟩⟩,
    ⟨.message (GaugeEvents.createSetEvent "name" 0 500000000) ⟨fun _ => none, 0, 0⟩ 500000100 0, 800000000,
      ⟨0, 0, 0⟩⟩]

theorem exists_run_sampleTurns :
    ∃ s₀ s : Processor ℚ, initialized Internal.sampleEnvironment 1 1 = .ok s₀ ∧
      run (turn Internal.sampleEnvironment Config.default) s₀ sampleTurns = .ok s := by
  obtain ⟨s₀, h₀, hrun⟩ : ∃ s₀ : Processor ℚ, initialized Internal.sampleEnvironment 1 1 = .ok s₀ ∧
      (run (turn Internal.sampleEnvironment Config.default) s₀ sampleTurns).toBool = true := by
    decide +kernel
  obtain ⟨s, hs⟩ := exists_ok_of_toBool hrun
  exact ⟨s₀, s, h₀, hs⟩

end Processor

end Handystats
