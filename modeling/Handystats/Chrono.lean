/-
`chrono`: time units, durations and their conversion.

A duration's count is a signed 64-bit integer; a conversion multiplies and
divides in unsigned 64-bit arithmetic. Ticks of the time stamp counter
convert through the calibrated `cycles_per_nanosec`.

The metrics' timestamps are counts in one unit (ticks for `tsc_clock`);
`Clock` fixes that unit, and `Clock.count` is what a duration comes to in it
where the source adds it to, or compares it with, a timestamp.
-/
import Mathlib.Data.Rat.Defs
import Mathlib.Data.Int.DivMod
import Mathlib.Tactic

namespace Handystats

/-- `time_unit`. -/
inductive TimeUnit where
  | tick | nsec | usec | msec | sec | min | hour | day
  deriving DecidableEq, Repr

/-- `duration`: a count (`m_rep`) of a unit (`m_unit`). -/
structure Duration where
  rep : Int
  unit : TimeUnit
  deriving DecidableEq, Repr

/-- `std::less<time_unit>`'s `precision_class`. -/
def precisionClass : TimeUnit → Nat
  | .tick => 1 <<< 0
  | .nsec => 1 <<< 1
  | .usec => 1 <<< 2
  | .msec => 1 <<< 3
  | .sec => 1 <<< 4
  | .min => 1 <<< 5
  | .hour => 1 <<< 6
  | .day => 1 <<< 7

/-- `nsec_factor`. -/
def nsecFactor : TimeUnit → Nat
  | .tick => 0
  | .nsec => 1
  | .usec => 1000
  | .msec => 1000 * 1000
  | .sec => 1000 * 1000 * 1000
  | .min => 60 * 1000 * 1000 * 1000
  | .hour => 60 * 60 * 1000 * 1000 * 1000
  | .day => 24 * 60 * 60 * 1000 * 1000 * 1000

/-- A value as `uint64_t`. -/
def toUint64 (n : Int) : Int := n % 2 ^ 64

/-- A value as `int64_t`. -/
def toInt64 (n : Int) : Int := n.bmod (2 ^ 64)

/-- The conversion of a rational to an integer type: truncation. -/
def truncate (q : ℚ) : Int := q.num.tdiv q.den

/-- `duration::convert_to`. -/
def Duration.convertTo (cyclesPerNanosec : ℚ) (toUnit : TimeUnit) (d : Duration) : Duration :=
  if d.unit = toUnit then d
  else if toUnit = .tick then
    ⟨truncate (cyclesPerNanosec * nsecFactor d.unit * d.rep), toUnit⟩
  else if d.unit = .tick then
    ⟨truncate (d.rep / nsecFactor toUnit / cyclesPerNanosec), toUnit⟩
  else
    ⟨toInt64 (toUint64 (nsecFactor d.unit * toUint64 d.rep) / nsecFactor toUnit), toUnit⟩

@[simp] theorem Duration.convertTo_self (cpn : ℚ) (d : Duration) : d.convertTo cpn d.unit = d := by
  simp [convertTo]

/-- The unit of the timestamps, and the calibration of the time stamp
counter. -/
structure Clock where
  unit : TimeUnit
  cyclesPerNanosec : ℚ

/-- The count of a duration in the unit of the timestamps. -/
def Clock.count (ck : Clock) (d : Duration) : Int := (d.convertTo ck.cyclesPerNanosec ck.unit).rep

/-- `duration::convert_to(u, d).count()`. -/
def Clock.countIn (ck : Clock) (u : TimeUnit) (d : Duration) : Int :=
  (d.convertTo ck.cyclesPerNanosec u).rep

/-- A duration in the unit of the timestamps counts as it is. -/
@[simp] theorem Clock.count_of_unit {ck : Clock} {d : Duration} (h : d.unit = ck.unit) :
    ck.count d = d.rep := by
  simp [count, Duration.convertTo, h]

/-- The default `time_point()`. -/
def timePointZero : Int := 0

end Handystats
