/-
`json`: what `HANDY_JSON_DUMP` writes of a dump.

Each metric is an object: its type, and then for each tag that is enabled what
`get` gives for it, under names of its own; `write_to_json_value` for a
`statistics` object without tags makes the whole value null. The value is
modelled, not its text, which is `rapidjson`'s.
-/
import Mathlib.Data.List.Sort
import Handystats.Json
import Handystats.Library.OptionalFields
import Handystats.MetricsDump
import Handystats.Quantile
import Handystats.StatisticsGet

namespace Handystats

open OptionalFields

/-- `rapidjson::Value`, with the kinds of numbers that are written. -/
inductive JsonValue (K : Type) where
  | null
  | bool (value : Bool)
  | int (value : Int32)
  | uint (value : UInt32)
  | int64 (value : Int64)
  | uint64 (value : UInt64)
  | double (value : K)
  | string (value : String)
  | array (values : List (JsonValue K))
  | object (members : List (String × JsonValue K))

namespace JsonValue

/-- The member of that name, for a reader. -/
def find? {K : Type} (json : JsonValue K) (name : String) : Option (JsonValue K) :=
  match json with
  | .object members => members.lookup name
  | _ => none

end JsonValue

/-- The functions that the writer's numbers come from: `sqrt`, `log`, and the
conversion of a time to nanoseconds of system time. -/
structure JsonMath (K : Type) where
  root : K → K
  log : K → K
  toSystemTime : Int → Int

namespace JsonDump

variable {K : Type} [Field K] [LinearOrder K] (env : Environment K) (math : JsonMath K)

/-! ## Statistics -/

/-- `AddMember(key, get<tag>())`, if the tag is enabled. -/
def single {α : Type} (st : Statistics K) (tag : Tag) (key : String) (got : Except Fault α) (write : α → JsonValue K) :
    Section Fault String (JsonValue K) where
  shown := st.config.enabled tag
  keys := [key]
  members := do
    let x ← got
    .ok [(key, write x)]

/-- The array of the bins, each an array of center and count. -/
def histogramValue (histogram : Histogram K) : JsonValue K :=
  .array (histogram.map fun bin => .array [.double bin.center, .double bin.count])

/-- `write_to_json_value` for a time. -/
def timestampValue (timestamp : Int) : JsonValue K :=
  .uint64 (Int64.ofInt (env.platform.clock.countIn .msec ⟨math.toSystemTime timestamp, .nsec⟩)).toUInt64

/-- The quantiles that are written, in percent. -/
def percentiles : List (String × Nat) := [("p25", 25), ("p50", 50), ("p75", 75), ("p90", 90), ("p95", 95)]

/-- `quantile.at`, in percent. -/
def quantile (st : Statistics K) (percent : Nat) : Except Fault K :=
  st.getQuantile math.root ((percent : K) / ((100 : Nat) : K))

/-- The five members of `tag::quantile`. -/
def quantiles (st : Statistics K) : Section Fault String (JsonValue K) where
  shown := st.config.enabled .quantile
  keys := percentiles.map Prod.fst
  members := percentiles.mapM fun entry => do
    let x ← quantile math st entry.2
    .ok (entry.1, .double x)

/-- The members of a `statistics` object, tag by tag. -/
def sections (st : Statistics K) : List (Section Fault String (JsonValue K)) :=
  [single st .value "value" st.getValue .double,
    single st .min "min" st.getMin .double,
    single st .max "max" st.getMax .double,
    single st .count "count" st.getCount fun count => .uint64 (UInt64.ofNat count),
    single st .sum "sum" st.getSum .double,
    single st .avg "avg" st.getAvg .double,
    single st .movingCount "moving-count" st.getMovingCount .double,
    single st .movingSum "moving-sum" st.getMovingSum .double,
    single st .movingAvg "moving-avg" st.getMovingAvg .double,
    single st .histogram "histogram" st.getHistogram histogramValue,
    quantiles math st,
    single st .timestamp "timestamp" st.getTimestamp (timestampValue env math),
    single st .rate "rate" (st.getRate env.platform) .double,
    single st .entropy "entropy" (st.getEntropy math.log) .double]

/-! ## Metrics -/

/-- `write_to_json_value` for a metric with statistics. -/
def writeValues (type : String) (values : Statistics K) : Except Fault (JsonValue K) :=
  if values.config.tags = Tag.empty then .ok .null
  else do
    let members ← write (sections env math values)
    .ok (.object (("type", .string type) :: members))

/-- What is written for the value of an attribute. -/
def attributeValue : AttributeValue → JsonValue K
  | .bool b => .bool b
  | .int i => .int i
  | .uint u => .uint u
  | .int64 i64 => .int64 i64
  | .uint64 u64 => .uint64 u64
  | .double d => .double (env.doubleValue d)
  | .string s => .string (cString s)

/-- `write_to_json_value` for a metric. -/
def writeMetric : MetricVariant K → Except Fault (JsonValue K)
  | .gauge metric => writeValues env math "gauge" metric.values
  | .counter metric => writeValues env math "counter" metric.values
  | .timer metric => writeValues env math "timer" metric.values
  | .attribute metric => .ok (.object [("type", .string "attribute"), ("value", attributeValue env metric.value)])

/-! ## Dumps -/

/-- The entries in the order of a `std::map`. -/
def sorted (dump : Dump K) : List (Sigma fun _ : String => MetricVariant K) :=
  dump.entries.insertionSort fun a b => a.1 ≤ b.1

/-- `fill`. -/
def fill (dump : Dump K) : Except Fault (JsonValue K) := do
  let members ← (sorted dump).mapM fun entry => do
    let value ← writeMetric env math entry.2
    .ok (cString entry.1, value)
  .ok (.object members)

end JsonDump

end Handystats
