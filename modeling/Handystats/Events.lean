/-
`events`: the messages, how they are made, and what a metric does with one.

`event_data` is 64 bits. Who makes a message writes them as one of four
`PayloadKind`s, who processes it reads them by its own event type alone;
with its result, `processEvent` says as what it has read them.
-/
import Handystats.Metrics

namespace Handystats

/-- `event_message`. -/
structure EventMessage where
  destinationType : MetricIndex
  eventType : Nat
  destinationName : String
  timestamp : Int
  eventData : UInt64

/-- As what `event_data` is written or read. -/
inductive PayloadKind where
  | int64
  | double
  | instanceId
  | attributeValue
  deriving DecidableEq

/-- What the library is run in: the platform of the statistics, the number that
64 bits are as a `double`, and `fnmatch`. -/
structure Environment (K : Type) [LinearOrder K] where
  platform : Platform K
  doubleValue : UInt64 → K
  fnmatch : List Char → List Char → Bool

/-- The objects of type `attribute::value_type`, by their addresses. -/
abbrev AttributeHeap := UInt64 → Option AttributeValue

variable {K : Type} [Field K] [LinearOrder K] (env : Environment K)

/-! ## Counters -/

namespace CounterEvents

def init : Nat := 0
def increment : Nat := 1
def decrement : Nat := 2

/-- `create_init_event`. -/
def createInitEvent (counterName : String) (initValue : Int64) (timestamp : Int) : EventMessage :=
  ⟨.counter, init, counterName, timestamp, initValue.toUInt64⟩

/-- `create_increment_event`. -/
def createIncrementEvent (counterName : String) (value : Int64) (timestamp : Int) : EventMessage :=
  ⟨.counter, increment, counterName, timestamp, value.toUInt64⟩

/-- `create_decrement_event`. -/
def createDecrementEvent (counterName : String) (value : Int64) (timestamp : Int) : EventMessage :=
  ⟨.counter, decrement, counterName, timestamp, value.toUInt64⟩

/-- `process_init_event`. -/
def processInitEvent (opts : CounterConfig) (message : EventMessage) : Except Fault (Counter K) := do
  let counter ← Counter.new env.platform opts
  counter.init env.platform message.eventData.toInt64 message.timestamp

/-- `process_increment_event`. -/
def processIncrementEvent (counter : Counter K) (message : EventMessage) : Except Fault (Counter K) :=
  counter.increment env.platform message.eventData.toInt64 message.timestamp

/-- `process_decrement_event`. -/
def processDecrementEvent (counter : Counter K) (message : EventMessage) : Except Fault (Counter K) :=
  counter.decrement env.platform message.eventData.toInt64 message.timestamp

/-- `process_event`. -/
def processEvent (opts : CounterConfig) (counter : Counter K) (message : EventMessage) :
    Except Fault (Counter K × Option PayloadKind) := do
  if message.eventType = init then
    let counter ← processInitEvent env opts message
    .ok (counter, some .int64)
  else if message.eventType = increment then
    let counter ← processIncrementEvent env counter message
    .ok (counter, some .int64)
  else if message.eventType = decrement then
    let counter ← processDecrementEvent env counter message
    .ok (counter, some .int64)
  else .ok (counter, none)

end CounterEvents

/-! ## Gauges -/

namespace GaugeEvents

def init : Nat := 0
def set : Nat := 1

/-- `create_init_event`. The value is the bits of a `double`. -/
def createInitEvent (gaugeName : String) (initValue : UInt64) (timestamp : Int) : EventMessage :=
  ⟨.gauge, init, gaugeName, timestamp, initValue⟩

/-- `create_set_event`. -/
def createSetEvent (gaugeName : String) (value : UInt64) (timestamp : Int) : EventMessage :=
  ⟨.gauge, set, gaugeName, timestamp, value⟩

/-- `process_init_event`. -/
def processInitEvent (opts : GaugeConfig) (message : EventMessage) : Except Fault (Gauge K) := do
  let gauge ← Gauge.new env.platform opts
  gauge.set env.platform (env.doubleValue message.eventData) message.timestamp

/-- `process_set_event`. -/
def processSetEvent (gauge : Gauge K) (message : EventMessage) : Except Fault (Gauge K) :=
  gauge.set env.platform (env.doubleValue message.eventData) message.timestamp

/-- `process_event`. -/
def processEvent (opts : GaugeConfig) (gauge : Gauge K) (message : EventMessage) :
    Except Fault (Gauge K × Option PayloadKind) := do
  if message.eventType = init then
    let gauge ← processInitEvent env opts message
    .ok (gauge, some .double)
  else if message.eventType = set then
    let gauge ← processSetEvent env gauge message
    .ok (gauge, some .double)
  else .ok (gauge, none)

end GaugeEvents

/-! ## Timers -/

namespace TimerEvents

def init : Nat := 0
def start : Nat := 1
def stop : Nat := 2
def discard : Nat := 3
def heartbeat : Nat := 4
def set : Nat := 5

/-- `create_init_event`. -/
def createInitEvent (timerName : String) (instanceId : UInt64) (timestamp : Int) : EventMessage :=
  ⟨.timer, init, timerName, timestamp, instanceId⟩

/-- `create_start_event`. -/
def createStartEvent (timerName : String) (instanceId : UInt64) (timestamp : Int) : EventMessage :=
  ⟨.timer, start, timerName, timestamp, instanceId⟩

/-- `create_stop_event`. -/
def createStopEvent (timerName : String) (instanceId : UInt64) (timestamp : Int) : EventMessage :=
  ⟨.timer, stop, timerName, timestamp, instanceId⟩

/-- `create_discard_event`. -/
def createDiscardEvent (timerName : String) (instanceId : UInt64) (timestamp : Int) : EventMessage :=
  ⟨.timer, discard, timerName, timestamp, instanceId⟩

/-- `create_heartbeat_event`. -/
def createHeartbeatEvent (timerName : String) (instanceId : UInt64) (timestamp : Int) : EventMessage :=
  ⟨.timer, heartbeat, timerName, timestamp, instanceId⟩

/-- `create_set_event`. -/
def createSetEvent (ck : Clock) (timerName : String) (measurement : Duration) (timestamp : Int) :
    EventMessage :=
  ⟨.timer, set, timerName, timestamp, (Int64.ofInt (ck.countIn Timer.valueUnit measurement)).toUInt64⟩

/-- `process_init_event`. -/
def processInitEvent (opts : TimerConfig) (message : EventMessage) :
    Except Fault (Timer (Statistics K)) := do
  let timer ← Timer.new env.platform opts
  .ok (timer.start env.platform.clock message.eventData message.timestamp)

/-- `process_set_event`. -/
def processSetEvent (timer : Timer (Statistics K)) (message : EventMessage) :
    Except Fault (Timer (Statistics K)) :=
  timer.set env.platform.clock (Timer.feed env.platform)
    ⟨message.eventData.toInt64.toInt, Timer.valueUnit⟩ message.timestamp

/-- `process_event`, with `process_start_event` and its like in their places. -/
def processEvent (opts : TimerConfig) (timer : Timer (Statistics K)) (message : EventMessage) :
    Except Fault (Timer (Statistics K) × Option PayloadKind) := do
  if message.eventType = init then
    let timer ← processInitEvent env opts message
    .ok (timer, some .instanceId)
  else if message.eventType = start then
    .ok (timer.start env.platform.clock message.eventData message.timestamp, some .instanceId)
  else if message.eventType = stop then
    let timer ← timer.stop env.platform.clock (Timer.feed env.platform) message.eventData message.timestamp
    .ok (timer, some .instanceId)
  else if message.eventType = discard then
    .ok (timer.discard env.platform.clock message.eventData message.timestamp, some .instanceId)
  else if message.eventType = heartbeat then
    .ok (timer.heartbeat env.platform.clock message.eventData message.timestamp, some .instanceId)
  else if message.eventType = set then
    let timer ← processSetEvent env timer message
    .ok (timer, some .int64)
  else .ok (timer, none)

end TimerEvents

/-! ## Attributes -/

namespace AttributeEvents

def set : Nat := 0

/-- `create_set_event`, with the address of the value that it allocates. -/
def createSetEvent (attributeName : String) (address : UInt64) (timestamp : Int) : EventMessage :=
  ⟨.attribute, set, attributeName, timestamp, address⟩

/-- `process_set_event`: undefined where there is no value at the address. -/
def processSetEvent (heap : AttributeHeap) (metric : Attribute) (message : EventMessage) :
    Except Fault Attribute :=
  match heap message.eventData with
  | some value => .ok (metric.set value)
  | none => .error .undefinedBehaviour

/-- `process_event`. -/
def processEvent (heap : AttributeHeap) (metric : Attribute) (message : EventMessage) :
    Except Fault (Attribute × Option PayloadKind) := do
  if message.eventType = set then
    let metric ← processSetEvent heap metric message
    .ok (metric, some .attributeValue)
  else .ok (metric, none)

end AttributeEvents

/-! ## The messages there are -/

/-- The messages that the creation functions make, with the kind that they
write `event_data` as. -/
inductive Created (ck : Clock) : EventMessage → PayloadKind → Prop
  | counterInit (name value timestamp) :
    Created ck (CounterEvents.createInitEvent name value timestamp) .int64
  | counterIncrement (name value timestamp) :
    Created ck (CounterEvents.createIncrementEvent name value timestamp) .int64
  | counterDecrement (name value timestamp) :
    Created ck (CounterEvents.createDecrementEvent name value timestamp) .int64
  | gaugeInit (name value timestamp) :
    Created ck (GaugeEvents.createInitEvent name value timestamp) .double
  | gaugeSet (name value timestamp) :
    Created ck (GaugeEvents.createSetEvent name value timestamp) .double
  | timerInit (name id timestamp) :
    Created ck (TimerEvents.createInitEvent name id timestamp) .instanceId
  | timerStart (name id timestamp) :
    Created ck (TimerEvents.createStartEvent name id timestamp) .instanceId
  | timerStop (name id timestamp) :
    Created ck (TimerEvents.createStopEvent name id timestamp) .instanceId
  | timerDiscard (name id timestamp) :
    Created ck (TimerEvents.createDiscardEvent name id timestamp) .instanceId
  | timerHeartbeat (name id timestamp) :
    Created ck (TimerEvents.createHeartbeatEvent name id timestamp) .instanceId
  | timerSet (name measurement timestamp) :
    Created ck (TimerEvents.createSetEvent ck name measurement timestamp) .int64
  | attributeSet (name address timestamp) :
    Created ck (AttributeEvents.createSetEvent name address timestamp) .attributeValue

end Handystats
