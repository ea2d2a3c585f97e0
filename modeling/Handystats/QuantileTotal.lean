/-
When `quantile_extractor::at` returns.

The segment in which the loop stops is the one in which the volumes passed so
far go past the required count (`StopsAt`, `scan_stopsAt`); the ends of that
segment must exist and have a weighted average (`Readable`), and the
quadratic must have a root that `find_z` accepts (`Solvable`, a condition on
the two counts and what is left of the required count). `quantile_returns_iff`
puts the three together. With probability 1 the loop runs past the last
segment (`quantile_one_undefined`).
-/
import Mathlib.Analysis.SpecialFunctions.Pow.Real
import Handystats.Library.Quadratic
import Handystats.HistogramWeight
import Handystats.Quantile

namespace Handystats

open Runs MathUtils Quadratic

variable {K : Type} [Field K]

/-! ## The segments -/

/-- The count of the bin at `k`; beyond the last bin, 0. -/
def countAt (hist : Histogram K) (k : Nat) : K := ((hist[k]?).map Bin.count).getD 0

/-- The count at the left end of segment `k`, the one before bin `k`. -/
def leftCount (hist : Histogram K) (k : Nat) : K := if k = 0 then 0 else countAt hist (k - 1)

/-- The volume of the segments before segment `k`. -/
def passed (hist : Histogram K) (k : Nat) : K :=
  (Histogram.total (hist.take (k - 1)) + Histogram.total (hist.take k)) / 2

theorem countAt_of_le {hist : Histogram K} {k : Nat} (h : hist.length ≤ k) : countAt hist k = 0 := by
  simp [countAt, h]

theorem countAt_of_lt {hist : Histogram K} {k : Nat} (h : k < hist.length) :
    countAt hist k = hist[k].count := by
  simp [countAt, h]

theorem total_take_add_drop (hist : Histogram K) (k : Nat) :
    Histogram.total (hist.take k) + Histogram.total (hist.drop k) = hist.total := by
  rw [← Histogram.total_append, List.take_append_drop]

theorem total_take_succ (hist : Histogram K) (k : Nat) :
    Histogram.total (hist.take (k + 1)) = Histogram.total (hist.take k) + countAt hist k := by
  rw [List.take_add_one, Histogram.total_append]
  cases h : hist[k]? with
  | none => simp [countAt, h]
  | some bin => simp [countAt, h]

theorem passed_zero (hist : Histogram K) : passed hist 0 = 0 := by simp [passed]

theorem passed_succ (hist : Histogram K) (k : Nat) :
    passed hist (k + 1) = passed hist k + (leftCount hist k + countAt hist k) / 2 := by
  cases k with
  | zero => simp [passed, leftCount, total_take_succ]
  | succ k =>
    simp only [passed, leftCount, Nat.add_sub_cancel, total_take_succ, Nat.succ_ne_zero, if_false]
    ring

/-- The bins a segment's ends are read from. -/
theorem elementAt_count (hist : Histogram K) {k : Nat} (h : k < hist.length) :
    ∃ bin, elementAt hist k = .ok bin ∧ bin.count = countAt hist k :=
  ⟨hist[k], elementAt_of_lt h, by simp [countAt, h]⟩

variable [LinearOrder K]

/-- How many segments the loop looks at. -/
def rounds (hist : Histogram K) : Nat := (intSize hist + 1).toNat

/-- The loop stops at segment `k`: the segments before it do not go past the
required count, but with `k` they do, or `k` is out of the loop's bound. -/
structure Tolerances.StopsAt (tol : Tolerances K) (hist : Histogram K) (required : K) (k : Nat) : Prop where
  le_rounds : k ≤ rounds hist
  passed_le : passed hist k ≤ required + tol.double
  reached : k = rounds hist ∨ required + tol.double < passed hist (k + 1)

/-- The source's loop does. -/
abbrev StopsAt (hist : Histogram K) (required : K) (k : Nat) : Prop :=
  Tolerances.source.StopsAt hist required k

/-- The ends of segment `k` exist, and the two outermost ones have a weighted
average. -/
def Readable (hist : Histogram K) (k : Nat) : Prop :=
  k ≤ hist.length ∧ (k = 0 → longDoubleEps < countAt hist 0 + countAt hist 1) ∧
    (k = hist.length →
      longDoubleEps < countAt hist (hist.length - 2) + countAt hist (hist.length - 1))

/-- In `[0, 1]`, up to the tolerance. -/
def InUnit (z : K) : Prop := -doubleEps ≤ z ∧ z ≤ 1 + doubleEps

/-- Between the counts `l` and `r` there is a place up to which the volume is
`x`: for equal counts at `x / l`, for a double root at the vertex, else where
`(r - l) z² + 2 l z - 2 x` changes its sign. -/
def Solvable (l r x : K) : Prop :=
  (|r - l| ≤ longDoubleEps ∧ longDoubleEps < 2 * l ∧ InUnit (x / l)) ∨
  (longDoubleEps < |r - l| ∧ |4 * l ^ 2 + 8 * (r - l) * x| ≤ longDoubleEps ∧ InUnit (l / (l - r))) ∨
  (longDoubleEps < |r - l| ∧ longDoubleEps < 4 * l ^ 2 + 8 * (r - l) * x ∧
    (quadratic (r - l) (2 * l) (-2 * x) (-doubleEps) *
        quadratic (r - l) (2 * l) (-2 * x) (1 + doubleEps) ≤ 0 ∨
      (InUnit (l / (l - r)) ∧ 0 ≤ (r - l) * quadratic (r - l) (2 * l) (-2 * x) (-doubleEps))))

/-- The condition under which a quantile can be extracted. -/
def QuantileDefined (hist : Histogram K) (probability : K) : Prop :=
  hist.length ≤ 1 ∨ hist.total ≤ doubleEps ∨
    ∀ k, StopsAt hist (hist.total * probability) k →
      Readable hist k ∧ Solvable (leftCount hist k) (countAt hist k)
        (hist.total * probability - passed hist k)

/-! ## The loop -/

omit [Field K] [LinearOrder K] in
theorem rounds_le (hist : Histogram K) : rounds hist ≤ hist.length + 1 := by
  have : intSize hist ≤ hist.length := by
    unfold intSize
    rw [Int.bmod_def]
    split_ifs <;> omega
  unfold rounds; omega

omit [Field K] [LinearOrder K] in
/-- The loop looks at all segments where the size is an `int`. -/
theorem rounds_of_lt {hist : Histogram K} (h : hist.length < 2 ^ 31) : rounds hist = hist.length + 1 := by
  have hsize : intSize hist = hist.length := by
    unfold intSize
    rw [Int.bmod_def]
    split_ifs <;> omega
  unfold rounds
  omega

omit [LinearOrder K] in
theorem volume_eq {hist : Histogram K} {k : Nat} (h : k ≤ hist.length) :
    volume hist (k - 1) = .ok ((leftCount hist k + countAt hist k) / 2) := by
  have hleft : endCount hist ((k : Int) - 1 == -1) (k - 1) = .ok (leftCount hist k) := by
    cases k with
    | zero => rfl
    | succ k =>
      obtain ⟨bin, hbin, hcount⟩ := elementAt_count hist (show k < hist.length by omega)
      have hk : (((k + 1 : Nat) : Int) - 1).toNat = k := by omega
      have hne : (((k + 1 : Nat) : Int) - 1 == -1) = false := beq_eq_false_iff_ne.2 (by omega)
      rw [endCount, hne, hk, hbin, leftCount, if_neg (Nat.succ_ne_zero k), Nat.add_sub_cancel, ← hcount]
      rfl
  have hright : endCount hist ((k : Int) - 1 + 1 == hist.length) (k - 1 + 1) =
      .ok (countAt hist k) := by
    rw [sub_add_cancel]
    rcases h.eq_or_lt with rfl | h
    · rw [countAt_of_le le_rfl, endCount, if_pos (beq_self_eq_true _)]
    · obtain ⟨bin, hbin, hcount⟩ := elementAt_count hist h
      have hne : ((k : Int) == hist.length) = false := beq_eq_false_iff_ne.2 (by omega)
      rw [endCount, hne, Int.toNat_natCast, hbin, ← hcount]
      rfl
  rw [volume, hleft, hright]
  rfl

variable [IsStrictOrderedRing K]

namespace Tolerances

variable {tol : Tolerances K}

theorem scan_step (hε : 0 ≤ tol.double) {hist : Histogram K} {r k : Nat} (h : k ≤ hist.length) (x : K) :
    tol.scan hist (r + 1) (k - 1) x =
      if x + tol.double < (leftCount hist k + countAt hist k) / 2 then .ok ((k : Int) - 1, x)
      else tol.scan hist r ((k + 1 : Nat) - 1) (x - (leftCount hist k + countAt hist k) / 2) := by
  have hnext : (k : Int) - 1 + 1 = (k + 1 : Nat) - 1 := by omega
  rw [scan, volume_eq h, hnext]
  change (if 0 < cmp tol.double _ x then _ else _) = _
  simp only [cmp_pos_of_nonneg hε]

/-- The loop stops in a segment, with what is left of the required count. -/
theorem scan_spec (tol : Tolerances K) (hε : 0 ≤ tol.double) {hist : Histogram K} {required : K} :
    ∀ {r k : Nat}, r + k = rounds hist → passed hist k ≤ required + tol.double →
      ∃ k', tol.StopsAt hist required k' ∧
        tol.scan hist r (k - 1) (required - passed hist k) =
          .ok ((k' : Int) - 1, required - passed hist k')
  | 0, k, hr, hk => ⟨k, ⟨by omega, hk, .inl (by omega)⟩, rfl⟩
  | r + 1, k, hr, hk => by
    have hle := rounds_le hist
    rw [scan_step hε (by omega)]
    split_ifs with hstop
    · refine ⟨k, ⟨by omega, hk, .inr ?_⟩, rfl⟩
      rw [passed_succ]; linarith
    · have hnext : passed hist (k + 1) ≤ required + tol.double := by
        rw [passed_succ]; linarith
      obtain ⟨k', hstops, hscan⟩ := scan_spec tol hε (r := r) (k := k + 1) (by omega) hnext
      refine ⟨k', hstops, ?_⟩
      rw [← hscan, passed_succ, sub_sub]

/-- The loop, from its start. -/
theorem scan_start (tol : Tolerances K) (hε : 0 ≤ tol.double) {hist : Histogram K} {required : K} (h : 0 ≤ required) :
    ∃ k, tol.StopsAt hist required k ∧
      tol.scan hist (intSize hist + 1).toNat (-1) required =
        .ok ((k : Int) - 1, required - passed hist k) := by
  have hstart : passed hist 0 ≤ required + tol.double := by
    rw [passed_zero]; linarith
  have hscan := scan_spec tol hε (r := rounds hist) (k := 0) (by omega) hstart
  rwa [passed_zero, sub_zero] at hscan

end Tolerances

section Counts

variable {hist : Histogram K} (hcount : ∀ bin ∈ hist, 0 ≤ bin.count)
include hcount

omit [IsStrictOrderedRing K] in
theorem countAt_nonneg (k : Nat) : 0 ≤ countAt hist k := by
  rcases lt_or_ge k hist.length with h | h
  · rw [countAt_of_lt h]
    exact hcount _ (List.getElem_mem h)
  · rw [countAt_of_le h]

omit [IsStrictOrderedRing K] in
theorem leftCount_nonneg (k : Nat) : 0 ≤ leftCount hist k := by
  unfold leftCount
  split_ifs
  · exact le_rfl
  · exact countAt_nonneg hcount _

theorem passed_mono : Monotone (passed hist) := by
  refine monotone_nat_of_le_succ fun k => ?_
  have hleft := leftCount_nonneg hcount k
  have hright := countAt_nonneg hcount k
  rw [passed_succ]; linarith

theorem total_drop_nonneg (k : Nat) : 0 ≤ Histogram.total (hist.drop k) :=
  Histogram.total_nonneg fun bin hbin => hcount bin (List.mem_of_mem_drop hbin)

theorem passed_succ_le_total (k : Nat) : passed hist (k + 1) ≤ hist.total := by
  have hk := total_take_add_drop hist k
  have hk' := total_take_add_drop hist (k + 1)
  have hnonneg := total_drop_nonneg hcount k
  have hnonneg' := total_drop_nonneg hcount (k + 1)
  rw [passed, Nat.add_sub_cancel]
  linarith

end Counts

/-- There is one such segment. -/
theorem StopsAt.unique {hist : Histogram K} (hcount : ∀ bin ∈ hist, 0 ≤ bin.count) {required : K}
    {k k' : Nat} (h : StopsAt hist required k) (h' : StopsAt hist required k') : k = k' := by
  have hlt : ∀ {i j : Nat}, StopsAt hist required i → StopsAt hist required j → ¬ i < j := by
    intro i j hi hj hij
    have hround := hj.le_rounds
    rcases hi.reached with hr | hr
    · omega
    · have := passed_mono hcount (show i + 1 ≤ j from hij)
      exact absurd (hr.trans_le this) (not_lt.2 hj.passed_le)
  exact le_antisymm (not_lt.1 (hlt h' h)) (not_lt.1 (hlt h h'))

/-! ## The ends of the segment -/

theorem weightedAverage_iff (v₁ v₂ : K) {w₁ w₂ : K} (h₁ : 0 ≤ w₁) (h₂ : 0 ≤ w₂) :
    (∃ x, weightedAverage v₁ w₁ v₂ w₂ = .ok x) ↔ longDoubleEps < w₁ + w₂ := by
  constructor
  · intro h
    obtain ⟨x, hx⟩ := h
    by_contra h
    have hz : cmp longDoubleEps (w₁ + w₂) 0 = 0 := by
      rw [cmp_eq_zero longDoubleEps_pos]
      have := longDoubleEps_pos (K := K)
      exact ⟨by linarith, by linarith⟩
    simp [weightedAverage, Tolerances.weightedAverage, hz] at hx
  · intro h
    exact ⟨_, weightedAverage_of_pos h⟩

/-- The ends of a readable segment, with its counts. -/
theorem segmentBins_iff {hist : Histogram K} (hcount : ∀ bin ∈ hist, 0 ≤ bin.count)
    (hlen : 2 ≤ hist.length) {k : Nat} :
    (∃ left right, Tolerances.source.segmentBins hist (k - 1) = .ok (left, right)) ↔ Readable hist k := by
  have hc : ∀ i (h : i < hist.length), 0 ≤ hist[i].count := fun i h => hcount _ (List.getElem_mem h)
  rcases Nat.eq_zero_or_pos k with rfl | h₀
  · have hw := weightedAverage_iff hist[0].center hist[1].center (hc 0 (by omega)) (hc 1 (by omega))
    rw [Tolerances.segmentBins_first _ hlen, Readable, countAt_of_lt (show 0 < hist.length by omega),
      countAt_of_lt (show 1 < hist.length by omega), ← hw]
    simp only [bind_eq_ok, Except.ok.injEq, Prod.mk.injEq]
    constructor
    · intro h
      obtain ⟨-, -, c, h, -⟩ := h
      exact ⟨by omega, fun _ => ⟨c, h⟩, fun h => by omega⟩
    · intro h
      obtain ⟨-, h, -⟩ := h
      obtain ⟨c, h⟩ := h trivial
      exact ⟨_, _, c, h, rfl, rfl⟩
  rcases lt_trichotomy k hist.length with h | rfl | h
  · rw [Tolerances.segmentBins_inner _ h₀ h, Readable]
    exact ⟨fun _ => ⟨h.le, by omega, by omega⟩, fun _ => ⟨_, _, rfl⟩⟩
  · have hw := weightedAverage_iff hist[hist.length - 2].center hist[hist.length - 1].center
      (hc (hist.length - 2) (by omega)) (hc (hist.length - 1) (by omega))
    rw [Tolerances.segmentBins_last _ hlen, Readable, countAt_of_lt (show hist.length - 2 < hist.length by omega),
      countAt_of_lt (show hist.length - 1 < hist.length by omega), ← hw]
    simp only [bind_eq_ok, Except.ok.injEq, Prod.mk.injEq]
    constructor
    · intro h
      obtain ⟨-, -, c, h, -⟩ := h
      exact ⟨le_rfl, by omega, fun _ => ⟨c, h⟩⟩
    · intro h
      obtain ⟨-, -, h⟩ := h
      obtain ⟨c, h⟩ := h trivial
      exact ⟨_, _, c, h, rfl, rfl⟩
  · rw [Tolerances.segmentBins_beyond _ hlen h, Readable]
    constructor
    · intro h
      obtain ⟨_, _, hno⟩ := h
      cases hno
    · intro h
      obtain ⟨hle, -⟩ := h
      omega

omit [IsStrictOrderedRing K] in
/-- The counts at the ends of a segment. -/
theorem segmentBins_counts (tol : Tolerances K) {hist : Histogram K} (hlen : 2 ≤ hist.length) {k : Nat}
    {left right : Bin K} (h : tol.segmentBins hist (k - 1) = .ok (left, right)) :
    left.count = leftCount hist k ∧ right.count = countAt hist k := by
  rcases Nat.eq_zero_or_pos k with rfl | h₀
  · simp only [tol.segmentBins_first hlen, bind_eq_ok, Except.ok.injEq, Prod.mk.injEq] at h
    obtain ⟨c, -, rfl, rfl⟩ := h
    exact ⟨rfl, (countAt_of_lt _).symm⟩
  rw [leftCount, if_neg (by omega)]
  rcases lt_trichotomy k hist.length with hk | rfl | hk
  · simp only [tol.segmentBins_inner h₀ hk, Except.ok.injEq, Prod.mk.injEq] at h
    obtain ⟨rfl, rfl⟩ := h
    exact ⟨(countAt_of_lt _).symm, (countAt_of_lt _).symm⟩
  · simp only [tol.segmentBins_last hlen, bind_eq_ok, Except.ok.injEq, Prod.mk.injEq] at h
    obtain ⟨c, -, rfl, rfl⟩ := h
    exact ⟨(countAt_of_lt _).symm, (countAt_of_le le_rfl).symm⟩
  · rw [tol.segmentBins_beyond hlen hk] at h
    cases h

/-! ## The place in the segment -/

theorem inUnit_iff {z : K} :
    (0 ≤ cmp Tolerances.source.double z 0 && cmp Tolerances.source.double z 1 ≤ 0 : Bool) = true ↔
      InUnit z := by
  rw [Bool.and_eq_true, decide_eq_true_eq, decide_eq_true_eq, Tolerances.source_double, cmp_nonneg,
    cmp_nonpos doubleEps_pos, InUnit, neg_le_iff_add_nonneg]

theorem cmp_zero_iff_abs {ε a : K} (hε : 0 < ε) : cmp ε a 0 = 0 ↔ |a| ≤ ε := by
  rw [cmp_eq_zero hε, abs_le, neg_le_iff_add_nonneg, zero_add]

theorem findZ_ok {root : K → K} {a b c : K} :
    (∃ z, findZ root a b c = .ok z) ↔
      ∃ roots, Tolerances.source.solveQuadratic root a b c = .ok roots ∧ ∃ z ∈ roots, InUnit z := by
  simp only [findZ, Tolerances.findZ, bind_eq_ok]
  rw [exists_comm]
  refine exists_congr fun roots => ?_
  rw [exists_and_left]
  refine and_congr_right fun _ => ?_
  cases hf : roots.find? fun z => 0 ≤ cmp Tolerances.source.double z 0 && cmp Tolerances.source.double z 1 ≤ 0 with
  | none =>
    simp only [List.find?_eq_none, inUnit_iff] at hf
    simp only [reduceCtorEq, exists_false, false_iff, not_exists, not_and]
    exact hf
  | some z =>
    have hz := List.find?_some hf
    have hmem := List.mem_of_find?_eq_some hf
    rw [inUnit_iff] at hz
    exact ⟨fun _ => ⟨z, hmem, hz⟩, fun _ => ⟨z, rfl⟩⟩

/-- `find_z` finds a root where the segment is solvable. -/
theorem findZ_iff {root : K → K} (hroot : ∀ d, 0 < d → 0 < root d ∧ root d * root d = d) {l r x : K}
    (hl : 0 ≤ l) : (∃ z, findZ root (r - l) (2 * l) (-2 * x) = .ok z) ↔ Solvable l r x := by
  have hδ := longDoubleEps_pos (K := K)
  have hε := doubleEps_pos (K := K)
  rw [findZ_ok, Tolerances.solveQuadratic, Solvable]
  have hd : 2 * l * (2 * l) - 4 * (r - l) * (-2 * x) = 4 * l ^ 2 + 8 * (r - l) * x := by ring
  simp only [hd, Tolerances.source_longDouble, cmp_zero_iff_abs hδ, cmp_neg]
  rcases le_or_gt |r - l| longDoubleEps with ha | ha
  · simp only [ha, if_true, not_lt.2 ha, false_and, or_false, true_and]
    have habs : |2 * l| = 2 * l := abs_of_nonneg (by linarith)
    rw [habs]
    split_ifs with hb
    · simp [not_lt.2 hb]
    · rw [not_le] at hb
      have hx : 2 * x / (2 * l) = x / l := mul_div_mul_left x l two_ne_zero
      simp [hb, hx]
  · have ha' : r - l ≠ 0 := fun h => by rw [h, abs_zero] at ha; linarith
    have hv : -(2 * l) / 2 / (r - l) = l / (l - r) := by
      rw [← neg_sub r l, div_neg]
      ring
    simp only [not_le.2 ha, if_false, ha, false_and, false_or, true_and]
    by_cases hneg : 4 * l ^ 2 + 8 * (r - l) * x + longDoubleEps < 0
    · have h₁ : ¬ |4 * l ^ 2 + 8 * (r - l) * x| ≤ longDoubleEps := by
        rw [abs_le]
        intro h
        obtain ⟨h, -⟩ := h
        linarith
      have h₂ : ¬ longDoubleEps < 4 * l ^ 2 + 8 * (r - l) * x := by linarith
      simp [hneg, h₁, h₂]
    by_cases hzero : |4 * l ^ 2 + 8 * (r - l) * x| ≤ longDoubleEps
    · have h₂ : ¬ longDoubleEps < 4 * l ^ 2 + 8 * (r - l) * x :=
        not_lt.2 ((le_abs_self _).trans hzero)
      simp only [hneg, if_false, hzero, if_true, true_and, h₂, false_and, or_false, hv,
        Except.ok.injEq, exists_eq_left', List.mem_singleton, exists_eq_left]
    · have hpos : longDoubleEps < 4 * l ^ 2 + 8 * (r - l) * x := by
        by_contra h
        exact hzero (abs_le.2 ⟨by linarith, not_lt.1 h⟩)
      obtain ⟨hs, hsq⟩ := hroot _ (hδ.trans hpos)
      have hsqrt : Tolerances.source.sqrt root (4 * l ^ 2 + 8 * (r - l) * x) =
          .ok (root (4 * l ^ 2 + 8 * (r - l) * x)) := by
        rw [Tolerances.sqrt, Tolerances.source_double, if_neg]
        rw [cmp_neg]
        linarith
      have hends : (-doubleEps : K) ≤ 1 + doubleEps := by linarith
      have hroots := exists_root_iff ha' hs (hsq.trans hd.symm) hends
      rw [hv] at hroots
      simp only [hneg, if_false, hzero, false_and, false_or, hpos, true_and, hsqrt, bind_eq_ok,
        Except.ok.injEq, exists_eq_left', List.mem_cons, List.not_mem_nil, or_false, exists_eq_or_imp,
        exists_eq_left]
      exact hroots

/-! ## The quantile -/

/-- What `at` answers, where a histogram has two bins or more. -/
theorem quantileAt_iff {root : K → K} (hroot : ∀ d, 0 < d → 0 < root d ∧ root d * root d = d)
    {st : Statistics K} (hcount : ∀ bin ∈ st.histogram, 0 ≤ bin.count) {p : K} (hp : 0 ≤ p) :
    (∃ q, quantileAt root (some st) p = .ok q) ↔ QuantileDefined st.histogram p := by
  have htotal : 0 ≤ st.histogram.total := Histogram.total_nonneg hcount
  unfold quantileAt Tolerances.quantileAt Tolerances.locate QuantileDefined
  simp only [Tolerances.source_double, cmp_nonpos doubleEps_pos, zero_add]
  by_cases h₀ : st.histogram.length = 0
  · simp [h₀]
  by_cases hε : st.histogram.total ≤ doubleEps
  · simp [h₀, hε]
  by_cases h₁ : st.histogram.length = 1
  · simp [hε, h₁, elementAt_of_lt (show 0 < st.histogram.length by omega), bind, Except.bind]
  have hlen : 2 ≤ st.histogram.length := by omega
  obtain ⟨k, hstops, hscan⟩ := Tolerances.source.scan_start doubleEps_pos.le (mul_nonneg htotal hp)
  have hk : (∀ k, StopsAt st.histogram (st.histogram.total * p) k →
      Readable st.histogram k ∧ Solvable (leftCount st.histogram k) (countAt st.histogram k)
        (st.histogram.total * p - passed st.histogram k)) ↔
      Readable st.histogram k ∧ Solvable (leftCount st.histogram k) (countAt st.histogram k)
        (st.histogram.total * p - passed st.histogram k) :=
    ⟨fun h => h k hstops, fun h k' hk' => hk'.unique hcount hstops ▸ h⟩
  rw [hk, ← segmentBins_iff hcount hlen]
  have hl : 0 ≤ leftCount st.histogram k := leftCount_nonneg hcount k
  simp only [h₀, h₁, hε, if_false, hscan, bind_assoc, show ¬ st.histogram.length ≤ 1 by omega, false_or]
  constructor
  · intro h
    obtain ⟨q, hq⟩ := h
    obtain ⟨_, hread, hq⟩ := bind_eq_ok.1 hq
    obtain rfl := Except.ok.inj hread
    obtain ⟨⟨left, right⟩, hseg, hq⟩ := bind_eq_ok.1 hq
    obtain ⟨z, hz, -⟩ := bind_eq_ok.1 hq
    obtain ⟨hcl, hcr⟩ := segmentBins_counts .source hlen hseg
    refine ⟨⟨left, right, hseg⟩, (findZ_iff hroot hl).1 ⟨z, ?_⟩⟩
    rw [← hcl, ← hcr]
    exact hz
  · intro h
    obtain ⟨⟨left, right, hseg⟩, hsolve⟩ := h
    obtain ⟨z, hz⟩ := (findZ_iff hroot hl).2 hsolve
    obtain ⟨hcl, hcr⟩ := segmentBins_counts .source hlen hseg
    rw [← hcl, ← hcr] at hz
    exact ⟨_, bind_eq_ok.2 ⟨_, rfl, bind_eq_ok.2 ⟨_, hseg, bind_eq_ok.2 ⟨z, hz, rfl⟩⟩⟩⟩

theorem sqrt_root_of_pos (d : ℝ) (hd : 0 < d) : 0 < Real.sqrt d ∧ Real.sqrt d * Real.sqrt d = d :=
  ⟨Real.sqrt_pos.2 hd, Real.mul_self_sqrt hd.le⟩

/-- **Quantile extraction returns** if, and only if, the segment in which the
loop stops exists and the quadratic of that segment has a root between 0 and
1, up to the tolerance. -/
theorem quantile_returns_iff {pf : Platform ℝ} {config : StatisticsConfig} {st : Statistics ℝ}
    (hr : Statistics.Reachable pf config st) {p : ℝ} (hp : 0 ≤ p) :
    (∃ q, quantileAt Real.sqrt (some st) p = .ok q) ↔ QuantileDefined st.histogram p := by
  obtain ⟨calls, hcalls⟩ := hr
  refine quantileAt_iff sqrt_root_of_pos ?_ hp
  exact hcalls.histogramInv.wellFormed.count_nonneg

/-- **No quantile at the total.** Where what is required is the whole total, up
to the tolerance, the loop runs past the last segment: so it is for probability
1, of two bins or more. -/
theorem not_quantileDefined {hist : Histogram K} (hcount : ∀ bin ∈ hist, 0 ≤ bin.count) (hlen : 2 ≤ hist.length)
    (hint : hist.length < 2 ^ 31) (htotal : doubleEps < hist.total) {p : K}
    (hp : hist.total ≤ hist.total * p + doubleEps) : ¬ QuantileDefined hist p := by
  intro h
  have hsegment := (h.resolve_left (by omega)).resolve_left (not_le.2 htotal)
  have hrequired : 0 ≤ hist.total * p := by linarith
  obtain ⟨k, hstops, -⟩ := Tolerances.source.scan_start doubleEps_pos.le hrequired
  have hk : k = rounds hist :=
    hstops.reached.resolve_right (not_lt.2 ((passed_succ_le_total hcount k).trans hp))
  obtain ⟨⟨hle, -, -⟩, -⟩ := hsegment k hstops
  rw [hk, rounds_of_lt hint] at hle
  omega

/-- Two values at one time, each in a bin of its own. -/
theorem two_values : ∃ st : Statistics K,
    Statistics.RunsTo (.inUnit .nsec) (Statistics.sampleConfig 2 Tag.quantile.bit)
      [.update 1 0, .update 2 0] st ∧ st.histogram = [⟨1, 1, 0⟩, ⟨2, 1, 0⟩] := by
  have htag : (Statistics.sampleConfig 2 Tag.quantile.bit).computed .histogram = true := by
    decide +kernel
  have hcall : ∀ (st : Statistics K) v hist,
      st.config = Statistics.sampleConfig 2 Tag.quantile.bit → st.timestamp = 0 →
      st.histogram.insertIdx (firstNotLess st.histogram ⟨v, 1, 0⟩) ⟨v, 1, 0⟩ = hist →
      hist.length ≤ 2 → ∃ st', st.update (.inUnit .nsec) v 0 = .ok st' ∧ st'.config = st.config ∧
        st'.timestamp = 0 ∧ st'.histogram = hist := by
    intro st v hist hcfg hT hins hlen
    have hbins : st.config.histogramBins = 2 := by rw [hcfg]; rfl
    have hfade : st.insertAndShift (.inUnit .nsec) v 0 = hist := by
      rw [Statistics.insertAndShift_eq (by omega),
        List.map_congr_left fun bin _ => Statistics.fadedBin_of_le hT.ge bin, List.map_id']
      exact hins
    refine ⟨_, Statistics.update_ok.2 ⟨hist, Statistics.update_histogram_cases.2 (.inr ⟨?_, by omega, ?_⟩),
      rfl⟩, rfl, ?_, rfl⟩
    · rw [Statistics.computed, hcfg, htag]
    · rw [hfade, reduceHistogram_ok]
      exact .inl ⟨by omega, rfl⟩
    · rw [Statistics.updated_timestamp, hT, max_self, ite_self]
  obtain ⟨st₁, h₁, hcfg, hT, hhist⟩ := hcall (Statistics.initial _) 1 [⟨1, 1, 0⟩] rfl rfl rfl (by simp)
  obtain ⟨st₂, h₂, -, -, hhist'⟩ := hcall st₁ 2 [⟨1, 1, 0⟩, ⟨2, 1, 0⟩] hcfg hT
    (by simp [hhist, firstNotLess, Bin.less, List.findIdx_cons]) (by simp)
  exact ⟨st₂, run_cons_ok.2 ⟨st₁, h₁, run_singleton_ok.2 h₂⟩, hhist'⟩

theorem quantile_returns_sample :
    ∃ st : Statistics ℝ, st.histogram = [⟨1, 1, 0⟩, ⟨2, 1, 0⟩] ∧
      ∃ q, quantileAt Real.sqrt (some st) (1 / 2) = .ok q := by
  obtain ⟨st, hrun, hhist⟩ := two_values (K := ℝ)
  refine ⟨st, hhist, (quantile_returns_iff hrun.reachable (by norm_num)).2 (.inr (.inr ?_))⟩
  have hε := doubleEps_value (K := ℝ)
  have hδ := longDoubleEps_value (K := ℝ)
  have hstops : StopsAt st.histogram (st.histogram.total * (1 / 2)) 1 := by
    refine ⟨by rw [hhist]; decide, ?_, .inr ?_⟩
    · rw [hhist]; norm_num [passed, hε]
    · rw [hhist]; norm_num [passed, hε]
  intro k hk
  obtain rfl := hk.unique hrun.histogramInv.wellFormed.count_nonneg hstops
  rw [hhist]
  refine ⟨⟨by decide, by simp, by simp⟩, .inl ?_⟩
  norm_num [leftCount, countAt, passed, InUnit, hε, hδ]

/-- The same two values and probability 1: the loop takes every segment off
the required count and stops past the last bin. -/
theorem quantile_one_undefined :
    ∃ st : Statistics ℚ,
      Statistics.RunsTo (.inUnit .nsec) (Statistics.sampleConfig 2 Tag.quantile.bit)
        [.update 1 0, .update 2 0] st ∧
      ∀ root, quantileAt root (some st) 1 = .error .undefinedBehaviour := by
  obtain ⟨st, hrun, hhist⟩ := two_values (K := ℚ)
  refine ⟨st, hrun, fun root => ?_⟩
  let hist : Histogram ℚ := [⟨1, 1, 0⟩, ⟨2, 1, 0⟩]
  have hscan : Tolerances.source.scan hist (intSize hist + 1).toNat (-1) (hist.total * 1) = .ok (2, 0) := by
    decide +kernel
  have hseg : Tolerances.source.segmentBins hist 2 = .error .undefinedBehaviour := by decide +kernel
  have hlocate : Tolerances.source.locate root hist 1 = .error .undefinedBehaviour :=
    bind_eq_error.2 (.inr ⟨_, hscan, bind_eq_error.2 (.inl hseg)⟩)
  unfold quantileAt Tolerances.quantileAt
  simp only [hhist]
  rw [if_neg (by decide), if_neg (by decide +kernel), if_neg (by decide)]
  exact bind_eq_error.2 (.inl hlocate)

end Handystats
