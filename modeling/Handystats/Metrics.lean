/-
`metrics`: counters, gauges and attributes over their statistics, and the
pointers to metrics that `metrics_map` holds.

A null pointer is `none`. What the library computes in integers becomes a
`double` on its way into a statistics object (`toDouble`).
-/
import Handystats.Config
import Handystats.Library.Rounding
import Handystats.Statistics
import Handystats.Timer

namespace Handystats

/-- The conversion of an integer to `double`, which has 53 binary digits. -/
def toDouble (n : Int) : Int := Rounding.round 53 n

/-- The integer is a `double`. -/
def IsDouble (n : Int) : Prop := Rounding.Exact 53 n

instance (n : Int) : Decidable (IsDouble n) := inferInstanceAs (Decidable (Rounding.Exact 53 n))

theorem toDouble_eq_iff {n : Int} : toDouble n = n ↔ IsDouble n := Rounding.round_eq_iff

theorem toDouble_natCast {n : Nat} (h : n < 2 ^ 53) : toDouble n = n :=
  toDouble_eq_iff.2 (Rounding.exact_of_lt (by simpa using h))

@[simp] theorem toDouble_zero : toDouble 0 = 0 := toDouble_natCast (by decide)

variable {K : Type} [Field K] [LinearOrder K]

/-! ## Gauges -/

/-- `metrics::gauge`. -/
structure Gauge (K : Type) where
  values : Statistics K

namespace Gauge

/-- `gauge::gauge`. -/
def new (pf : Platform K) (opts : GaugeConfig) : Except Fault (Gauge K) := do
  let values ← Statistics.new pf opts.values
  .ok ⟨values⟩

/-- `gauge::set`. -/
def set (pf : Platform K) (gauge : Gauge K) (value : K) (timestamp : Int) : Except Fault (Gauge K) := do
  let values ← gauge.values.update pf value timestamp
  .ok ⟨values⟩

/-- `gauge::update_statistics`. -/
def updateStatistics (pf : Platform K) (gauge : Gauge K) (timestamp : Int) : Gauge K :=
  ⟨gauge.values.updateTime pf timestamp⟩

end Gauge

/-! ## Counters -/

/-- `metrics::counter`. -/
structure Counter (K : Type) where
  values : Statistics K
  value : Int64
  timestamp : Int

namespace Counter

/-- `counter::counter`. -/
def new (pf : Platform K) (opts : CounterConfig) : Except Fault (Counter K) := do
  let values ← Statistics.new pf opts.values
  .ok ⟨values, 0, timePointZero⟩

/-- `counter::init`. -/
def init (pf : Platform K) (counter : Counter K) (initValue : Int64) (timestamp : Int) :
    Except Fault (Counter K) := do
  let values ← counter.values.reset pf
  let values ← values.update pf (toDouble initValue.toInt) timestamp
  .ok ⟨values, initValue, timestamp⟩

/-- What `increment` and `decrement` do: `change` is what becomes of
`m_value`. -/
def changed (pf : Platform K) (counter : Counter K) (change : Int64 → Int64) (timestamp : Int) :
    Except Fault (Counter K) := do
  let counter ← (if counter.timestamp = timePointZero then counter.init pf 0 timestamp else .ok counter)
  let value := change counter.value
  let last := if counter.timestamp < timestamp then timestamp else counter.timestamp
  let values ← counter.values.update pf (toDouble value.toInt) last
  .ok ⟨values, value, last⟩

/-- `counter::increment`. -/
def increment (pf : Platform K) (counter : Counter K) (incrValue : Int64) (timestamp : Int) :
    Except Fault (Counter K) :=
  counter.changed pf (fun value => value + incrValue) timestamp

/-- `counter::decrement`. -/
def decrement (pf : Platform K) (counter : Counter K) (decrValue : Int64) (timestamp : Int) :
    Except Fault (Counter K) :=
  counter.changed pf (fun value => value - decrValue) timestamp

/-- `counter::update_statistics`. -/
def updateStatistics (pf : Platform K) (counter : Counter K) (timestamp : Int) : Counter K :=
  { counter with values := counter.values.updateTime pf timestamp }

end Counter

/-! ## Timers -/

namespace Timer

/-- `m_values.update` of a timer's value. -/
def feed (pf : Platform K) (values : Statistics K) (value timestamp : Int) : Except Fault (Statistics K) :=
  values.update pf (toDouble value) timestamp

/-- `timer::timer`. -/
def new (pf : Platform K) (opts : TimerConfig) : Except Fault (Timer (Statistics K)) := do
  let values ← Statistics.new pf opts.values
  .ok (fresh opts.idleTimeout values)

/-- `timer::update_statistics`. -/
def updateStatistics (pf : Platform K) (timer : Timer (Statistics K)) (timestamp : Int) :
    Timer (Statistics K) :=
  { timer with values := timer.values.updateTime pf timestamp }

end Timer

/-! ## Attributes -/

/-- `attribute::value_type`; a `double` is its bits. -/
inductive AttributeValue where
  | bool (b : Bool)
  | int (i : Int32)
  | uint (u : UInt32)
  | int64 (i64 : Int64)
  | uint64 (u64 : UInt64)
  | double (d : UInt64)
  | string (s : String)

/-- `metrics::attribute`. -/
structure Attribute where
  value : AttributeValue

namespace Attribute

/-- `attribute::attribute`. -/
def new : Attribute := ⟨.bool false⟩

/-- `attribute::set`. -/
def set (_attribute : Attribute) (value : AttributeValue) : Attribute := ⟨value⟩

end Attribute

/-! ## Pointers -/

/-- `metric_index`, and `event_destination_type`, which numbers the kinds of
metrics alike. -/
inductive MetricIndex where
  | counter | gauge | timer | attribute
  deriving DecidableEq

/-- `metric_ptr_variant`. -/
inductive MetricPtr (K : Type) where
  | counter (metric : Option (Counter K))
  | gauge (metric : Option (Gauge K))
  | timer (metric : Option (Timer (Statistics K)))
  | attribute (metric : Option Attribute)

namespace MetricPtr

variable {K : Type}

/-- A default-constructed variant: the first alternative, null. -/
def default : MetricPtr K := .counter none

/-- `which()`. -/
def which : MetricPtr K → MetricIndex
  | .counter _ => .counter
  | .gauge _ => .gauge
  | .timer _ => .timer
  | .attribute _ => .attribute

/-- The pointer is null, whichever it is. -/
def isNull : MetricPtr K → Bool
  | .counter metric => metric.isNone
  | .gauge metric => metric.isNone
  | .timer metric => metric.isNone
  | .attribute metric => metric.isNone

end MetricPtr

end Handystats
