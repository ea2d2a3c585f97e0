/-
`duration`'s comparison operators, on durations of mixed units.

Each converts both sides to the finer of the two units. The key that they
agree with is the ticks a duration comes to, which grows strictly with its
nanoseconds; the pairs that they answer in reverse are those where the
conversion takes a count below zero to a unit coarser than nanoseconds
(`convert_to`'s wrap), where the coarser side always looks the greater.
-/
import Handystats.DurationConversion
import Handystats.Library.Comparison

namespace Handystats

/-- `std::min(u, v, std::less<time_unit>())`. -/
def commonUnit (u v : TimeUnit) : TimeUnit := if precisionClass v < precisionClass u then v else u

/-- What the comparison operators share: the counts in one unit, compared. -/
def Duration.compareWith (rel : Int → Int → Bool) (cpn : ℚ) (x y : Duration) : Bool :=
  if x.unit = y.unit then rel x.rep y.rep
  else
    rel (x.convertTo cpn (commonUnit x.unit y.unit)).rep
      (y.convertTo cpn (commonUnit x.unit y.unit)).rep

/-- `operator==`, `!=`, `<`, `<=`, `>` and `>=`. -/
def Duration.comparisons (cpn : ℚ) : Comparisons Duration where
  eq := compareWith (fun a b => a == b) cpn
  ne := compareWith (fun a b => a != b) cpn
  lt := compareWith (fun a b => decide (a < b)) cpn
  le := compareWith (fun a b => decide (a ≤ b)) cpn
  gt := compareWith (fun a b => decide (a > b)) cpn
  ge := compareWith (fun a b => decide (a ≥ b)) cpn

theorem precisionClass_inj {u v : TimeUnit} : precisionClass u = precisionClass v ↔ u = v := by
  cases u <;> cases v <;> decide

theorem commonUnit_self (u : TimeUnit) : commonUnit u u = u := by
  simp [commonUnit]

theorem commonUnit_comm (u v : TimeUnit) : commonUnit u v = commonUnit v u := by
  cases u <;> cases v <;> decide

/-- Counts of one unit are in their common unit already. -/
theorem Duration.compareWith_eq (rel : Int → Int → Bool) (cpn : ℚ) (x y : Duration) :
    compareWith rel cpn x y = rel (x.convertTo cpn (commonUnit x.unit y.unit)).rep
      (y.convertTo cpn (commonUnit x.unit y.unit)).rep := by
  rw [compareWith]
  split
  · rename_i heq
    rw [← heq, commonUnit_self, convertTo_self, heq, convertTo_self]
  · rfl

theorem Duration.comparisons_reads (cpn : ℚ) (x y : Duration) :
    (comparisons cpn).Reads x y (x.convertTo cpn (commonUnit x.unit y.unit)).rep
      (y.convertTo cpn (commonUnit x.unit y.unit)).rep := by
  refine ⟨?_, ?_, ?_, ?_, ?_, ?_⟩ <;> simp only [comparisons, compareWith_eq] <;>
    first
    | rfl
    | exact Bool.eq_iff_iff.mpr (by simp)

theorem Duration.gt_iff (cpn : ℚ) (x y : Duration) :
    (comparisons cpn).gt x y ↔ (comparisons cpn).lt y x := by
  simp only [(comparisons_reads cpn x y).gt, (comparisons_reads cpn y x).lt,
    commonUnit_comm y.unit x.unit]

theorem Duration.eq_swap (cpn : ℚ) (x y : Duration) :
    (comparisons cpn).eq x y ↔ (comparisons cpn).eq y x := by
  simp only [(comparisons_reads cpn x y).eq, (comparisons_reads cpn y x).eq,
    commonUnit_comm y.unit x.unit, eq_comm]

/-- The products of every conversion of a duration fit in `int64_t`: its
count, its nanoseconds and its ticks. -/
structure Duration.Fits (cpn : ℚ) (d : Duration) : Prop where
  rep : FitsInt64 d.rep
  nanoseconds : FitsInt64 d.nanoseconds
  ticks_low : -2 ^ 63 ≤ cpn * d.nanoseconds
  ticks_high : cpn * d.nanoseconds < 2 ^ 63

/-- The ticks of a duration. -/
def Duration.ticks (cpn : ℚ) (d : Duration) : Int :=
  if d.unit = .tick then d.rep else truncate (cpn * d.nanoseconds)

/-- `x` is a count below zero of a coarser unit than `y`'s, itself coarser
than nanoseconds, and no longer than `y`. -/
def Duration.Misordered (x y : Duration) : Prop :=
  x.rep < 0 ∧ precisionClass y.unit < precisionClass x.unit ∧ y.unit ≠ .tick ∧ y.unit ≠ .nsec ∧
    x.nanoseconds ≤ y.nanoseconds

/-! ## Ticks grow with nanoseconds -/

theorem truncate_of_nonneg {q : ℚ} (h : 0 ≤ q) : truncate q = ⌊q⌋ := by
  rw [truncate, Int.tdiv_eq_ediv_of_nonneg (Rat.num_nonneg.mpr h), Rat.floor_def']

theorem truncate_of_nonpos {q : ℚ} (h : q ≤ 0) : truncate q = ⌈q⌉ := by
  have hneg : truncate q = -truncate (-q) := by
    simp [truncate, Int.neg_tdiv]
  rw [hneg, truncate_of_nonneg (by linarith), Int.floor_neg, Int.neg_neg]

/-- A tick is no longer than a nanosecond, so none is lost. -/
theorem truncate_mul_lt {cpn : ℚ} (h1 : 1 ≤ cpn) {m n : Int} (h : m < n) :
    truncate (cpn * m) < truncate (cpn * n) := by
  have hone : (m : ℚ) + 1 ≤ n := by exact_mod_cast h
  have hgap : cpn * m + 1 ≤ cpn * n := by nlinarith
  rcases le_or_gt 0 m with hm | hm
  · have hm' : (0 : ℚ) ≤ m := by exact_mod_cast hm
    have h0 : 0 ≤ cpn * m := by positivity
    rw [truncate_of_nonneg h0, truncate_of_nonneg (by linarith)]
    have := Int.floor_le_floor hgap
    rw [Int.floor_add_one] at this
    omega
  · have hm' : (m : ℚ) ≤ 0 := by exact_mod_cast hm.le
    have h0 : cpn * m ≤ 0 := by nlinarith
    rw [truncate_of_nonpos h0]
    rcases le_or_gt n 0 with hn | hn
    · have hn' : (n : ℚ) ≤ 0 := by exact_mod_cast hn
      rw [truncate_of_nonpos (by nlinarith)]
      have := Int.ceil_le_ceil hgap
      rw [Int.ceil_add_one] at this
      omega
    · -- the two are on the two sides of zero
      have hn' : (1 : ℚ) ≤ n := by exact_mod_cast hn
      have hpos : 1 ≤ cpn * n := by nlinarith
      rw [truncate_of_nonneg (by linarith)]
      have hceil : ⌈cpn * (m : ℚ)⌉ ≤ 0 := Int.ceil_le.mpr (by simpa using h0)
      have hfloor : 1 ≤ ⌊cpn * (n : ℚ)⌋ := Int.le_floor.mpr (by simpa using hpos)
      omega

/-- Of two durations in units of the calendar the longer has more ticks. -/
theorem Duration.ticks_lt_iff {cpn : ℚ} (h1 : 1 ≤ cpn) {x y : Duration} (hx : x.unit ≠ .tick)
    (hy : y.unit ≠ .tick) : x.ticks cpn < y.ticks cpn ↔ x.nanoseconds < y.nanoseconds := by
  have hmono : StrictMono fun n : Int => truncate (cpn * n) := fun _ _ => truncate_mul_lt h1
  simp only [ticks, if_neg hx, if_neg hy]
  exact hmono.lt_iff_lt

theorem Duration.ticks_eq_iff {cpn : ℚ} (h1 : 1 ≤ cpn) {x y : Duration} (hx : x.unit ≠ .tick)
    (hy : y.unit ≠ .tick) : x.ticks cpn = y.ticks cpn ↔ x.nanoseconds = y.nanoseconds := by
  have hmono : StrictMono fun n : Int => truncate (cpn * n) := fun _ _ => truncate_mul_lt h1
  simp only [ticks, if_neg hx, if_neg hy]
  exact hmono.injective.eq_iff

/-! ## Two durations in the finer of their units -/

/-- A finer unit of the calendar divides a coarser one. -/
theorem nsecFactor_dvd {u v : TimeUnit} (hv : v ≠ .tick) (hcls : precisionClass v ≤ precisionClass u) :
    (nsecFactor v : Int) ∣ nsecFactor u := by
  cases u <;> cases v <;> first | contradiction | decide

/-- What a count below zero comes to in a unit coarser than nanoseconds is
more than any count of that unit. -/
theorem lt_wrapped {u v : TimeUnit} (hv : v ≠ .tick) (hns : v ≠ .nsec)
    (hcls : precisionClass v < precisionClass u) {m n : Int} (hm : -2 ^ 63 ≤ m * nsecFactor u)
    (hn : n * nsecFactor v < 2 ^ 63) : n < (2 ^ 64 + m * nsecFactor u) / nsecFactor v := by
  have hpos := nsecFactor_pos hv
  refine Int.lt_of_add_one_le ((Int.le_ediv_iff_mul_le hpos).mpr ?_)
  -- the largest multiple of the unit below 2^63 settles each pair of units
  cases u <;> cases v <;> simp [nsecFactor, precisionClass] at hv hns hcls hm hn ⊢ <;> omega

/-- Without the wrap, nothing is lost in a finer unit. -/
theorem Duration.convertTo_finer (cpn : ℚ) {v : TimeUnit} {d : Duration} (hd : d.unit ≠ .tick)
    (hv : v ≠ .tick) (hcls : precisionClass v ≤ precisionClass d.unit)
    (hfit : FitsInt64 d.nanoseconds) (hsign : 0 ≤ d.rep ∨ v = .nsec ∨ d.unit = v) :
    (d.convertTo cpn v).rep * nsecFactor v = d.nanoseconds := by
  rcases hsign with h0 | hns | heq
  · rw [convertTo_of_nonneg cpn hd hv hfit h0]
    exact Int.ediv_mul_cancel ((nsecFactor_dvd hv hcls).mul_left _)
  · subst hns
    rw [convertTo_nsec cpn hd hfit]
    simp [nsecFactor]
  · subst heq
    rw [convertTo_self, nanoseconds]

theorem Duration.convertTo_tick (cpn : ℚ) (d : Duration) : (d.convertTo cpn .tick).rep = d.ticks cpn := by
  by_cases hd : d.unit = .tick
  · rw [← hd, convertTo_self, ticks, if_pos hd]
  · simp only [convertTo, if_neg hd, if_true, ticks, nanoseconds]
    push_cast
    rw [mul_assoc, mul_comm (d.rep : ℚ)]

theorem Duration.unit_ne_tick {x y : Duration} (hcls : precisionClass y.unit ≤ precisionClass x.unit)
    (hy : y.unit ≠ .tick) : x.unit ≠ .tick := by
  intro hx
  rw [hx] at hcls
  cases hu : y.unit <;> simp [hu, precisionClass] at hcls hy

/-- What comparing `x` in the unit of `y`, the finer one, comes to. -/
theorem Duration.compare_finer {cpn : ℚ} (h1 : 1 ≤ cpn) {x y : Duration} (hx : x.Fits cpn)
    (hy : y.Fits cpn) (hcls : precisionClass y.unit ≤ precisionClass x.unit) :
    (Misordered x y → y.rep < (x.convertTo cpn y.unit).rep) ∧
      (¬ Misordered x y →
        ((x.convertTo cpn y.unit).rep < y.rep ↔ x.ticks cpn < y.ticks cpn) ∧
          ((x.convertTo cpn y.unit).rep = y.rep ↔ x.ticks cpn = y.ticks cpn)) := by
  by_cases hyt : y.unit = .tick
  · refine ⟨fun hmis => absurd hyt hmis.2.2.1, fun _ => ?_⟩
    have hkey : y.ticks cpn = y.rep := by rw [ticks, if_pos hyt]
    rw [hyt, convertTo_tick, hkey]
    simp
  have hxt := unit_ne_tick hcls hyt
  have hpos := nsecFactor_pos hyt
  rw [ticks_lt_iff h1 hxt hyt, ticks_eq_iff h1 hxt hyt]
  by_cases hsign : 0 ≤ x.rep ∨ y.unit = .nsec ∨ x.unit = y.unit
  · have hexact := convertTo_finer cpn hxt hyt hcls hx.nanoseconds hsign
    refine ⟨fun hmis => ?_, fun _ => ?_⟩
    · obtain ⟨hneg, hlt, -, hns, -⟩ := hmis
      rcases hsign with h0 | h0 | h0
      · omega
      · exact absurd h0 hns
      · rw [h0] at hlt
        omega
    · rw [← hexact, nanoseconds]
      exact ⟨(Int.mul_lt_mul_right hpos).symm, (Int.mul_eq_mul_right_iff (by omega)).symm⟩
  · -- the wrap: the coarser side comes out greater, whatever the two are
    simp only [not_or, not_le] at hsign
    obtain ⟨hneg, hns, hne⟩ := hsign
    have hlt : precisionClass y.unit < precisionClass x.unit :=
      lt_of_le_of_ne hcls fun heq => hne (precisionClass_inj.mp heq).symm
    have hgt : y.rep < (x.convertTo cpn y.unit).rep := by
      rw [convertTo_of_neg cpn hxt hyt hne hns hx.nanoseconds hneg]
      exact lt_wrapped hyt hns hlt hx.nanoseconds.1 hy.nanoseconds.2
    refine ⟨fun _ => hgt, fun hmis => ?_⟩
    have hlen : y.nanoseconds < x.nanoseconds := by
      by_contra hle
      exact hmis ⟨hneg, hlt, hyt, hns, by omega⟩
    omega

/-! ## The operators by the ticks -/

theorem Duration.reads_finer (cpn : ℚ) {x y : Duration}
    (hcls : precisionClass y.unit ≤ precisionClass x.unit) :
    (comparisons cpn).Reads x y (x.convertTo cpn y.unit).rep y.rep := by
  have hcommon : commonUnit x.unit y.unit = y.unit := by
    rw [commonUnit]
    split
    · rfl
    · exact precisionClass_inj.mp (by omega)
  have hreads := comparisons_reads cpn x y
  rwa [hcommon, convertTo_self] at hreads

/-- Only the coarser side is misordered below the finer. -/
theorem Duration.Misordered.asymm {x y : Duration} (h : Misordered x y) : ¬ Misordered y x := by
  intro h'
  obtain ⟨-, hlt, -⟩ := h
  obtain ⟨-, hlt', -⟩ := h'
  omega

theorem Duration.Misordered.trans {x y z : Duration} (h : Misordered x y) (h' : Misordered y z) :
    Misordered x z := by
  obtain ⟨hneg, hlt, -, -, hlen⟩ := h
  obtain ⟨-, hlt', ht, hns, hlen'⟩ := h'
  exact ⟨hneg, by omega, ht, hns, by omega⟩

theorem Duration.Misordered.ticks_le {cpn : ℚ} (h1 : 1 ≤ cpn) {x y : Duration} (h : Misordered x y) :
    x.ticks cpn ≤ y.ticks cpn := by
  obtain ⟨-, hlt, ht, -, hlen⟩ := h
  have hxt := unit_ne_tick hlt.le ht
  have hnlt := (ticks_lt_iff h1 ht hxt).not
  omega

/-- The operators on two durations, the second no coarser than the first. -/
theorem Duration.compare_iff {cpn : ℚ} (h1 : 1 ≤ cpn) {x y : Duration} (hx : x.Fits cpn)
    (hy : y.Fits cpn) (hcls : precisionClass y.unit ≤ precisionClass x.unit) :
    ((comparisons cpn).lt x y ↔ Misordered y x ∨ ¬ Misordered x y ∧ x.ticks cpn < y.ticks cpn) ∧
      ((comparisons cpn).lt y x ↔ Misordered x y ∨ ¬ Misordered y x ∧ y.ticks cpn < x.ticks cpn) ∧
      ((comparisons cpn).eq x y ↔
        ¬ Misordered x y ∧ ¬ Misordered y x ∧ x.ticks cpn = y.ticks cpn) := by
  obtain ⟨hmis, hexact⟩ := compare_finer h1 hx hy hcls
  have hnot : ¬ Misordered y x := fun h => by
    have hlt := h.2.1
    omega
  rw [← gt_iff cpn x y]
  simp only [(reads_finer cpn hcls).lt, (reads_finer cpn hcls).gt, (reads_finer cpn hcls).eq,
    decide_eq_true_eq]
  by_cases h : Misordered x y
  · have hgt := hmis h
    simp only [hnot, h, not_true, false_and, or_false, iff_false, true_or, iff_true]
    omega
  · obtain ⟨hlt, heq⟩ := hexact h
    simp only [hnot, h, not_false_iff, true_and, false_or]
    omega

/-- The operators compare ticks, but for the misordered pairs. -/
theorem Duration.comparisons_reversing {cpn : ℚ} (h1 : 1 ≤ cpn) {S : Set Duration}
    (hS : ∀ d ∈ S, d.Fits cpn) : (comparisons cpn).Reversing (ticks cpn) Misordered S := by
  refine ⟨fun x _ y _ => (comparisons_reads cpn x y).consistent, fun x _ y _ => gt_iff cpn x y,
    fun x hx y hy => ?_, fun x hx y hy => ?_, fun x _ y _ => Misordered.ticks_le h1,
    fun x _ y _ z _ => Misordered.trans, fun x _ y _ => Misordered.asymm⟩
  · rcases le_total (precisionClass y.unit) (precisionClass x.unit) with hcls | hcls
    · exact (compare_iff h1 (hS x hx) (hS y hy) hcls).1
    · exact (compare_iff h1 (hS y hy) (hS x hx) hcls).2.1
  · rcases le_total (precisionClass y.unit) (precisionClass x.unit) with hcls | hcls
    · exact (compare_iff h1 (hS x hx) (hS y hy) hcls).2.2
    · rw [eq_swap, (compare_iff h1 (hS y hy) (hS x hx) hcls).2.2, ← and_assoc, ← and_assoc,
        and_comm (a := ¬ Misordered y x), @eq_comm ℤ]

/-- **Which durations of mixed units are totally ordered.** Of any two,
exactly one of `<`, `==` and `>` holds, and `<=`, `>=` and `!=` go by them.
On a set of durations whose products fit, `<` and `==` are transitive just
if none of them lies, in ticks, between two that are misordered, without
being misordered with either itself. -/
theorem Duration.comparisons_totalOn_iff {cpn : ℚ} (h1 : 1 ≤ cpn) {S : Set Duration}
    (hS : ∀ d ∈ S, d.Fits cpn) :
    (∀ x y, (comparisons cpn).Consistent x y) ∧
      ((comparisons cpn).TotalOn S ↔
        ∀ x ∈ S, ∀ y ∈ S, ∀ z ∈ S, ¬ Comparisons.Trapped (ticks cpn) Misordered x y z) :=
  ⟨fun x y => (comparisons_reads cpn x y).consistent, (comparisons_reversing h1 hS).totalOn_iff⟩

/-- No two durations from zero up are misordered: of these three, one is
in ticks. -/
theorem Duration.comparisons_totalOn_sample :
    (comparisons 2).TotalOn {⟨1, .sec⟩, ⟨1000, .msec⟩, ⟨2000000000, .tick⟩} := by
  have hfits : ∀ d ∈ ({⟨1, .sec⟩, ⟨1000, .msec⟩, ⟨2000000000, .tick⟩} : Set Duration), d.Fits 2 := by
    intro d hd
    rcases hd with rfl | rfl | rfl <;>
      exact ⟨by decide, by decide, by norm_num [nanoseconds, nsecFactor],
        by norm_num [nanoseconds, nsecFactor]⟩
  refine (comparisons_totalOn_iff (by norm_num) hfits).2.mpr fun x hx y _ z _ htrap => ?_
  have hneg := htrap.1.1
  rcases hx with rfl | rfl | rfl <;> simp at hneg

/-- A second below zero is less than none, and none less than a millisecond;
the first is not less than the last but greater. -/
theorem Duration.comparisons_cycle :
    (Fits 1 ⟨-1, .sec⟩ ∧ Fits 1 ⟨0, .sec⟩ ∧ Fits 1 ⟨1, .msec⟩) ∧
      (comparisons 1).lt ⟨-1, .sec⟩ ⟨0, .sec⟩ ∧ (comparisons 1).lt ⟨0, .sec⟩ ⟨1, .msec⟩ ∧
      ¬ (comparisons 1).lt ⟨-1, .sec⟩ ⟨1, .msec⟩ ∧ (comparisons 1).gt ⟨-1, .sec⟩ ⟨1, .msec⟩ := by
  refine ⟨⟨?_, ?_, ?_⟩, by decide +kernel, by decide +kernel, by decide +kernel, by decide +kernel⟩ <;>
    exact ⟨by decide, by decide, by norm_num [nanoseconds, nsecFactor],
      by norm_num [nanoseconds, nsecFactor]⟩

end Handystats
