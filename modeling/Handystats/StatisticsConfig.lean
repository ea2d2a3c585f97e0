/-
`statistics::tag` and `config::statistics`: the tags a statistics object is
configured with, and the closure `computed` of what they depend on.
-/
import Handystats.Chrono
import Handystats.Fault

namespace Handystats

/-- `statistics::tag`. -/
inductive Tag where
  | value | min | max | count | sum | avg | movingCount | movingSum | movingAvg
  | histogram | quantile | timestamp | rate | entropy
  deriving DecidableEq, Repr

namespace Tag

/-- The tag's bit in a `tag::type`. -/
def bit : Tag → Nat
  | .value => 1 <<< 1
  | .min => 1 <<< 2
  | .max => 1 <<< 3
  | .count => 1 <<< 4
  | .sum => 1 <<< 5
  | .avg => 1 <<< 6
  | .movingCount => 1 <<< 7
  | .movingSum => 1 <<< 8
  | .movingAvg => 1 <<< 9
  | .histogram => 1 <<< 10
  | .quantile => 1 <<< 11
  | .timestamp => 1 <<< 12
  | .rate => 1 <<< 13
  | .entropy => 1 <<< 14

/-- `tag::empty`. -/
def empty : Nat := 0

/-- `tag::from_string`. -/
def fromString (tagName : String) : Except Fault Tag :=
  if tagName = "value" then .ok .value
  else if tagName = "min" then .ok .min
  else if tagName = "max" then .ok .max
  else if tagName = "count" then .ok .count
  else if tagName = "sum" then .ok .sum
  else if tagName = "avg" then .ok .avg
  else if tagName = "moving-count" then .ok .movingCount
  else if tagName = "moving-sum" then .ok .movingSum
  else if tagName = "moving-avg" then .ok .movingAvg
  else if tagName = "histogram" then .ok .histogram
  else if tagName = "quantile" then .ok .quantile
  else if tagName = "timestamp" then .ok .timestamp
  else if tagName = "rate" then .ok .rate
  else if tagName = "entropy" then .ok .entropy
  else .error .invalidTag

/-- How far a tag is from the tags it depends on. -/
def depth : Tag → Nat
  | .timestamp => 2
  | .value | .count | .sum | .movingCount | .movingSum | .histogram => 1
  | _ => 0

end Tag

/-- `config::statistics`. -/
structure StatisticsConfig where
  movingInterval : Duration
  histogramBins : Nat
  tags : Nat
  rateUnit : TimeUnit
  deriving DecidableEq, Repr

namespace StatisticsConfig

/-- `config::statistics::statistics()`. -/
def default : StatisticsConfig where
  movingInterval := ⟨1, .sec⟩
  histogramBins := 30
  tags :=
    Tag.value.bit ||| Tag.min.bit ||| Tag.max.bit ||| Tag.count.bit ||| Tag.sum.bit |||
      Tag.avg.bit ||| Tag.movingCount.bit ||| Tag.movingSum.bit ||| Tag.movingAvg.bit |||
      Tag.timestamp.bit
  rateUnit := .sec

/-- `statistics::enabled`. -/
def enabled (c : StatisticsConfig) (t : Tag) : Bool := c.tags &&& t.bit != 0

/-- `statistics::computed`. -/
def computed (c : StatisticsConfig) (t : Tag) : Bool :=
  match t with
  | .value => c.enabled .value || c.computed .rate
  | .min => c.enabled .min
  | .max => c.enabled .max
  | .count => c.enabled .count || c.computed .avg
  | .sum => c.enabled .sum || c.computed .avg
  | .avg => c.enabled .avg
  | .movingCount => c.enabled .movingCount || c.computed .movingAvg
  | .movingSum => c.enabled .movingSum || c.computed .movingAvg
  | .movingAvg => c.enabled .movingAvg
  | .histogram => c.enabled .histogram || c.computed .quantile || c.computed .entropy
  | .quantile => c.enabled .quantile
  | .timestamp =>
    c.enabled .timestamp || c.computed .movingCount || c.computed .movingSum ||
      c.computed .movingAvg || c.computed .histogram || c.computed .quantile || c.computed .rate
  | .rate => c.enabled .rate
  | .entropy => c.enabled .entropy
termination_by t.depth
decreasing_by all_goals decide

/-! ## What is computed with what -/

/-- A tag is computed if it is enabled or one that is computed from it is. -/
theorem computed_eq (c : StatisticsConfig) (t : Tag) : c.computed t = (c.enabled t ||
    match t with
    | .value => c.computed .rate
    | .count | .sum => c.computed .avg
    | .movingCount | .movingSum => c.computed .movingAvg
    | .histogram => c.computed .quantile || c.computed .entropy
    | .timestamp =>
      c.computed .movingCount || c.computed .movingSum || c.computed .movingAvg ||
        c.computed .histogram || c.computed .quantile || c.computed .rate
    | _ => false) := by
  rw [computed.eq_def]
  cases t <;> simp only [Bool.or_assoc, Bool.or_false]

@[simp] theorem computed_rate (c : StatisticsConfig) : c.computed .rate = c.enabled .rate := by
  rw [computed_eq, Bool.or_false]

@[simp] theorem computed_value (c : StatisticsConfig) :
    c.computed .value = (c.enabled .value || c.enabled .rate) := by
  rw [computed_eq, computed_rate]

@[simp] theorem computed_movingAvg (c : StatisticsConfig) :
    c.computed .movingAvg = c.enabled .movingAvg := by
  rw [computed_eq, Bool.or_false]

@[simp] theorem computed_movingCount (c : StatisticsConfig) :
    c.computed .movingCount = (c.enabled .movingCount || c.enabled .movingAvg) := by
  rw [computed_eq, computed_movingAvg]

@[simp] theorem computed_movingSum (c : StatisticsConfig) :
    c.computed .movingSum = (c.enabled .movingSum || c.enabled .movingAvg) := by
  rw [computed_eq, computed_movingAvg]

@[simp] theorem computed_min (c : StatisticsConfig) : c.computed .min = c.enabled .min := by
  rw [computed_eq, Bool.or_false]

@[simp] theorem computed_max (c : StatisticsConfig) : c.computed .max = c.enabled .max := by
  rw [computed_eq, Bool.or_false]

@[simp] theorem computed_avg (c : StatisticsConfig) : c.computed .avg = c.enabled .avg := by
  rw [computed_eq, Bool.or_false]

@[simp] theorem computed_count (c : StatisticsConfig) :
    c.computed .count = (c.enabled .count || c.enabled .avg) := by
  rw [computed_eq, computed_avg]

@[simp] theorem computed_sum (c : StatisticsConfig) :
    c.computed .sum = (c.enabled .sum || c.enabled .avg) := by
  rw [computed_eq, computed_avg]

@[simp] theorem computed_quantile (c : StatisticsConfig) :
    c.computed .quantile = c.enabled .quantile := by
  rw [computed_eq, Bool.or_false]

@[simp] theorem computed_entropy (c : StatisticsConfig) :
    c.computed .entropy = c.enabled .entropy := by
  rw [computed_eq, Bool.or_false]

theorem computed_histogram (c : StatisticsConfig) :
    c.computed .histogram = (c.enabled .histogram || c.enabled .quantile || c.enabled .entropy) := by
  rw [computed_eq]
  simp only [computed_quantile, computed_entropy, Bool.or_assoc]

/-- The windowed statistics need the timestamps. -/
theorem computed_timestamp {c : StatisticsConfig} {t : Tag} (h : c.computed t = true)
    (ht : t = .movingCount ∨ t = .movingSum ∨ t = .movingAvg ∨ t = .histogram ∨ t = .quantile ∨
      t = .rate) : c.computed .timestamp = true := by
  rw [computed_eq]
  rcases ht with rfl | rfl | rfl | rfl | rfl | rfl <;> simp [h]

example : default.computed .histogram = false := by decide +kernel
example : default.computed .timestamp = true := by decide +kernel

end StatisticsConfig

end Handystats
