/-
`duration::convert_to` between the units of the calendar, NSEC to DAY, on
every signed count.

The product with the nanoseconds of the unit is formed modulo 2^64 and
divided unsigned. A count from zero up comes out as the exact quotient. A
negative one has wrapped by then: 2^64 more is what gets divided, which a
division by one undoes and no other does.
-/
import Handystats.Chrono

namespace Handystats

/-- The nanoseconds of a duration; of ticks, zero. -/
def Duration.nanoseconds (d : Duration) : Int := d.rep * nsecFactor d.unit

/-- A value that `int64_t` holds. -/
def FitsInt64 (n : Int) : Prop := -2 ^ 63 ≤ n ∧ n < 2 ^ 63

instance (n : Int) : Decidable (FitsInt64 n) := inferInstanceAs (Decidable (_ ∧ _))

/-- `duration::operator-`. -/
def Duration.neg (d : Duration) : Duration := ⟨-d.rep, d.unit⟩

theorem nsecFactor_pos {u : TimeUnit} (hu : u ≠ .tick) : (0 : Int) < nsecFactor u := by
  cases u <;> simp [nsecFactor] at hu ⊢

/-- The units of the calendar are whole nanoseconds, the finest of them a
thousandth of the next. -/
theorem nsecFactor_bounds {u : TimeUnit} (hu : u ≠ .tick) :
    (nsecFactor u : Int) ≤ 86400000000000 ∧ (u ≠ .nsec → 1000 ≤ (nsecFactor u : Int)) := by
  cases u <;> simp [nsecFactor] at hu ⊢

/-- The product of a conversion is that of the exact nanoseconds, wrapped. -/
theorem Duration.convertTo_wrapped (cpn : ℚ) {v : TimeUnit} {d : Duration} (hd : d.unit ≠ .tick)
    (hv : v ≠ .tick) (hne : d.unit ≠ v) :
    (d.convertTo cpn v).rep = toInt64 (toUint64 d.nanoseconds / nsecFactor v) := by
  simp only [convertTo, if_neg hne, if_neg hv, if_neg hd, toUint64, nanoseconds]
  rw [Int.mul_comm d.rep, Int.mul_emod, Int.emod_emod, ← Int.mul_emod]

theorem toInt64_of_fits {n : Int} (h : FitsInt64 n) : toInt64 n = n := by
  obtain ⟨hlo, hhi⟩ := h
  exact Int.bmod_eq_of_le (by omega) (by omega)

theorem toInt64_toUint64 (n : Int) : toInt64 (toUint64 n) = toInt64 n :=
  Int.emod_bmod n (2 ^ 64)

/-- **From zero up a conversion is exact**: the nanoseconds divided by those
of the target unit, the remainder dropped. -/
theorem Duration.convertTo_of_nonneg (cpn : ℚ) {v : TimeUnit} {d : Duration} (hd : d.unit ≠ .tick)
    (hv : v ≠ .tick) (hfit : FitsInt64 d.nanoseconds) (h0 : 0 ≤ d.rep) :
    (d.convertTo cpn v).rep = d.nanoseconds / nsecFactor v := by
  have hpos := nsecFactor_pos hv
  by_cases hne : d.unit = v
  · subst hne
    rw [convertTo_self, nanoseconds, Int.mul_ediv_cancel _ (by omega)]
  have hn0 : 0 ≤ d.nanoseconds := Int.mul_nonneg h0 (by omega)
  obtain ⟨-, hhi⟩ := hfit
  have hmod : toUint64 d.nanoseconds = d.nanoseconds := Int.emod_eq_of_lt hn0 (by omega)
  have hq0 := Int.ediv_nonneg hn0 (show (0 : Int) ≤ nsecFactor v by omega)
  have hq := Int.ediv_le_self (nsecFactor v : Int) hn0
  rw [convertTo_wrapped cpn hd hv hne, hmod]
  exact toInt64_of_fits ⟨by omega, by omega⟩

/-- Conversion to nanoseconds is exact on every count. -/
theorem Duration.convertTo_nsec (cpn : ℚ) {d : Duration} (hd : d.unit ≠ .tick)
    (hfit : FitsInt64 d.nanoseconds) : (d.convertTo cpn .nsec).rep = d.nanoseconds := by
  by_cases hne : d.unit = .nsec
  · rw [← hne, convertTo_self, nanoseconds, hne]
    simp [nsecFactor]
  rw [convertTo_wrapped cpn hd (by simp) hne]
  simp only [nsecFactor, Nat.cast_one, Int.ediv_one, toInt64_toUint64]
  exact toInt64_of_fits hfit

/-- Below zero, to another unit than nanoseconds, 2^64 more is divided. -/
theorem Duration.convertTo_of_neg (cpn : ℚ) {v : TimeUnit} {d : Duration} (hd : d.unit ≠ .tick)
    (hv : v ≠ .tick) (hne : d.unit ≠ v) (hns : v ≠ .nsec) (hfit : FitsInt64 d.nanoseconds)
    (h0 : d.rep < 0) :
    (d.convertTo cpn v).rep = (2 ^ 64 + d.nanoseconds) / nsecFactor v := by
  have hpos := nsecFactor_pos hv
  have hbig := (nsecFactor_bounds hv).2 hns
  have hn0 : d.nanoseconds < 0 := Int.mul_neg_of_neg_of_pos h0 (nsecFactor_pos hd)
  obtain ⟨hlo, hhi⟩ := hfit
  have hmod : toUint64 d.nanoseconds = 2 ^ 64 + d.nanoseconds := by
    rw [toUint64, ← Int.add_emod_left]
    exact Int.emod_eq_of_lt (by omega) (by omega)
  have hq0 := Int.ediv_nonneg (show 0 ≤ 2 ^ 64 + d.nanoseconds by omega)
    (show (0 : Int) ≤ nsecFactor v by omega)
  have hq : (2 ^ 64 + d.nanoseconds) / nsecFactor v < 2 ^ 63 := by
    rw [Int.ediv_lt_iff_lt_mul hpos]
    have hmul := Int.mul_le_mul_of_nonneg_left hbig (show (0 : Int) ≤ 2 ^ 63 by omega)
    omega
  rw [convertTo_wrapped cpn hd hv hne, hmod]
  exact toInt64_of_fits ⟨by omega, hq⟩

/-- So it comes out positive. -/
theorem Duration.convertTo_pos_of_neg (cpn : ℚ) {v : TimeUnit} {d : Duration} (hd : d.unit ≠ .tick)
    (hv : v ≠ .tick) (hne : d.unit ≠ v) (hns : v ≠ .nsec) (hfit : FitsInt64 d.nanoseconds)
    (h0 : d.rep < 0) : 0 < (d.convertTo cpn v).rep := by
  have hpos := nsecFactor_pos hv
  have hle := (nsecFactor_bounds hv).1
  rw [convertTo_of_neg cpn hd hv hne hns hfit h0]
  have hlo := hfit.1
  have hone := (Int.le_ediv_iff_mul_le hpos).mpr
    (show 1 * (nsecFactor v : Int) ≤ 2 ^ 64 + d.nanoseconds by omega)
  omega

section Coarser

variable (cpn : ℚ) {u v : TimeUnit} (hu : u ≠ .tick) (hv : v ≠ .tick) (huv : u ≠ v) (hns : v ≠ .nsec)
variable {n : Int} (hfit : FitsInt64 (n * nsecFactor u))

include hu hv huv hns hfit in
/-- To another unit than nanoseconds, just the counts from zero up scale. -/
theorem Duration.convertTo_coarser_exact_iff :
    (convertTo cpn v ⟨n, u⟩).rep = (n * nsecFactor u).tdiv (nsecFactor v) ↔ 0 ≤ n := by
  have hpos := nsecFactor_pos hv
  constructor
  · intro heq
    by_contra hlt
    have hgt := convertTo_pos_of_neg cpn (d := ⟨n, u⟩) hu hv huv hns hfit (by omega : n < 0)
    -- The quotient rounded toward zero is not positive.
    have hnonneg : 0 ≤ -(n * nsecFactor u) := by
      rw [← Int.neg_mul]
      exact Int.mul_nonneg (by omega) (by omega)
    have hle := Int.tdiv_nonneg hnonneg (show (0 : Int) ≤ nsecFactor v by omega)
    rw [Int.neg_tdiv] at hle
    omega
  · intro h0
    rw [convertTo_of_nonneg cpn (d := ⟨n, u⟩) hu hv hfit h0,
      Int.tdiv_eq_ediv_of_nonneg (Int.mul_nonneg h0 (by omega))]
    rfl

include hu hv huv hns hfit in
/-- Of a duration and its negation one is negative and comes out positive, the
other does not come out below zero. -/
theorem Duration.convertTo_coarser_neg_iff (hneg : FitsInt64 (-n * nsecFactor u)) :
    (convertTo cpn v (neg ⟨n, u⟩)).rep = -(convertTo cpn v ⟨n, u⟩).rep ↔ n = 0 := by
  have hpos := nsecFactor_pos hv
  have hup : ∀ m : Int, 0 ≤ m → FitsInt64 (m * nsecFactor u) → 0 ≤ (convertTo cpn v ⟨m, u⟩).rep := by
    intro m h0 hm
    rw [convertTo_of_nonneg cpn (d := ⟨m, u⟩) hu hv hm h0]
    exact Int.ediv_nonneg (Int.mul_nonneg h0 (by omega)) (by omega)
  have hdown : ∀ m : Int, m < 0 → FitsInt64 (m * nsecFactor u) → 0 < (convertTo cpn v ⟨m, u⟩).rep :=
    fun m h0 hm => convertTo_pos_of_neg cpn (d := ⟨m, u⟩) hu hv huv hns hm h0
  simp only [neg]
  constructor
  · intro heq
    rcases Int.lt_trichotomy n 0 with hlt | hzero | hgt
    · have h1 := hdown n hlt hfit
      have h2 := hup (-n) (by omega) hneg
      omega
    · exact hzero
    · have h1 := hdown (-n) (by omega) hneg
      have h2 := hup n (by omega) hfit
      omega
  · intro h0
    subst h0
    rw [Int.neg_zero, convertTo_of_nonneg cpn (d := ⟨0, u⟩) hu hv hfit le_rfl]
    simp [nanoseconds]

end Coarser

/-- **Where a conversion is exact scaling rounded toward zero.** Between
units of the calendar, of a count whose nanoseconds fit in 64 bits: when the
unit stays, when the target is nanoseconds, and from zero up; and nowhere
else. A negated duration converts to the negated result in the first two
cases and for zero. -/
theorem Duration.convertTo_exact_iff (cpn : ℚ) {u v : TimeUnit} (hu : u ≠ .tick) (hv : v ≠ .tick)
    {n : Int} (hfit : FitsInt64 (n * nsecFactor u)) :
    ((convertTo cpn v ⟨n, u⟩).rep = (n * nsecFactor u).tdiv (nsecFactor v) ↔
        u = v ∨ v = .nsec ∨ 0 ≤ n) ∧
      (FitsInt64 (-n * nsecFactor u) →
        ((convertTo cpn v (neg ⟨n, u⟩)).rep = -(convertTo cpn v ⟨n, u⟩).rep ↔
          u = v ∨ v = .nsec ∨ n = 0)) := by
  have hpos := nsecFactor_pos hv
  have hposu := nsecFactor_pos hu
  by_cases huv : u = v
  · subst huv
    have hself : ∀ m : Int, (convertTo cpn u ⟨m, u⟩).rep = m := fun m => by simp [convertTo]
    refine ⟨?_, fun _ => ?_⟩
    · rw [hself, Int.mul_tdiv_cancel _ (by omega)]
      simp
    · simp [neg, hself]
  by_cases hns : v = .nsec
  · subst hns
    have hexact : ∀ m : Int, FitsInt64 (m * nsecFactor u) →
        (convertTo cpn .nsec ⟨m, u⟩).rep = m * nsecFactor u :=
      fun m hm => convertTo_nsec cpn (d := ⟨m, u⟩) hu hm
    refine ⟨?_, fun hneg => ?_⟩
    · rw [hexact n hfit]
      simp [nsecFactor]
    · rw [neg, hexact n hfit, hexact (-n) hneg, Int.neg_mul]
      simp
  simp only [huv, hns, false_or]
  exact ⟨convertTo_coarser_exact_iff cpn hu hv huv hns hfit,
    convertTo_coarser_neg_iff cpn hu hv huv hns hfit⟩

/-- Ninety seconds are a minute and a half, in whole minutes one; as much
below zero, in nanoseconds, exactly as much. -/
theorem Duration.convertTo_exact_sample :
    (convertTo 1 .min ⟨90, .sec⟩).rep = (90 * nsecFactor .sec : Int).tdiv (nsecFactor .min) ∧
      (convertTo 1 .nsec (neg ⟨90, .sec⟩)).rep = -(convertTo 1 .nsec ⟨90, .sec⟩).rep :=
  ⟨(convertTo_exact_iff 1 (by decide) (by decide) (by decide)).1.mpr (by decide),
    ((convertTo_exact_iff 1 (by decide) (by decide) (by decide)).2 (by decide)).mpr (by decide)⟩

/-- One second below zero comes to 18446744072709 milliseconds. -/
theorem Duration.convertTo_negative_second :
    FitsInt64 (-1 * nsecFactor .sec) ∧ (-1 * nsecFactor .sec : Int).tdiv (nsecFactor .msec) = -1000 ∧
      (convertTo 1 .msec ⟨-1, .sec⟩).rep = 18446744072709 ∧
      (convertTo 1 .msec (neg ⟨-1, .sec⟩)).rep = 1000 := by
  decide +kernel

end Handystats
