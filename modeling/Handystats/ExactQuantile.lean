/-
Quantiles without tolerances: `at` is monotone and inverts the mass.

The loop stops in the segment in which the mass passes the required count,
`find_z` finds the place in it up to which the mass is what is left, and the
borders of the segments are in order (`border_mono`).

All that holds as far as the loop looks: it counts in `int`, and a histogram of
`2^31` bins or more has a size that is no `int`. What is beyond must be empty
(`quantiles_invert_iff`).
-/
import Handystats.ExactRoots
import Handystats.QuantileTotal

namespace Handystats

open Runs MathUtils Ramp

variable {K : Type} [Field K] [LinearOrder K]

/-! ## What is claimed -/

/-- The outer edge of the histogram at its first bin: extrapolated beyond the
bin's center where it has a count. -/
def outerEdge : Histogram K → K
  | first :: second :: _ =>
    if 0 < first.count then
      2 * first.center - (first.center * first.count + second.center * second.count) /
        (first.count + second.count)
    else first.center
  | _ => 0

/-- `at` looks for `p` in segment `k`, between the bins `left` and `right`, and
finds it at `z`: up to there the mass is the `p`-th part of the total. -/
structure Inverts (root : K → K) (hist : Histogram K) (p : K) (k : Nat) (left right : Bin K) (z : K) :
    Prop where
  locate : Tolerances.exact.locate root hist p = .ok ((k : Int) - 1, (left, right), z)
  z_nonneg : 0 ≤ z
  z_le_one : z ≤ 1
  mass_eq : passed hist k + mass left.count right.count z = p * hist.total

/-- Quantiles are monotone, between the outer edges, and invert the mass. -/
def QuantilesInvert (root : K → K) (st : Statistics K) : Prop :=
  ∀ p q, 0 ≤ p → p ≤ q → q < 1 → ∃ x y,
    Tolerances.exact.quantileAt root (some st) p = .ok x ∧
    Tolerances.exact.quantileAt root (some st) q = .ok y ∧ x ≤ y ∧
    outerEdge st.histogram ≤ x ∧ x ≤ outerEdge st.histogram.reverse ∧
    ∃ k left right z, Inverts root st.histogram p k left right z

/-! ## The segments -/

theorem outerEdge_eq {hist : Histogram K} {first second : Bin K} (h₀ : hist[0]? = some first)
    (h₁ : hist[1]? = some second) :
    outerEdge hist =
      if 0 < first.count then
        2 * first.center - (first.center * first.count + second.center * second.count) /
          (first.count + second.count)
      else first.center := by
  cases hist with
  | nil => simp at h₀
  | cons bin rest =>
    cases rest with
    | nil => simp at h₁
    | cons bin' rest =>
      simp only [List.getElem?_cons_zero, List.getElem?_cons_succ, Option.some.injEq] at h₀ h₁
      subst h₀ h₁; rfl

theorem outerEdge_reverse {hist : Histogram K} {previous last : Bin K} (hlen : 2 ≤ hist.length)
    (h₁ : hist[hist.length - 2]? = some previous) (h₀ : hist[hist.length - 1]? = some last) :
    outerEdge hist.reverse =
      if 0 < last.count then
        2 * last.center - (previous.center * previous.count + last.center * last.count) /
          (previous.count + last.count)
      else last.center := by
  rw [add_comm (previous.center * _), add_comm previous.count]
  refine outerEdge_eq ?_ ?_
  · rwa [List.getElem?_reverse (by omega)]
  · rwa [List.getElem?_reverse (by omega)]

/-- The left border of segment `k`. -/
def border (hist : Histogram K) (k : Nat) : K :=
  if k = 0 then outerEdge hist else ((hist[k - 1]?).map Bin.center).getD (outerEdge hist.reverse)

theorem border_zero (hist : Histogram K) : border hist 0 = outerEdge hist := rfl

theorem border_inner {hist : Histogram K} {k : Nat} (h : k < hist.length) :
    border hist (k + 1) = hist[k].center := by
  simp [border, h]

theorem border_last {hist : Histogram K} {k : Nat} (h : hist.length < k) :
    border hist k = outerEdge hist.reverse := by
  have hnone : hist[k - 1]? = none := List.getElem?_eq_none (by omega)
  rw [border, if_neg (by omega), hnone]
  rfl

section Exact

variable [IsStrictOrderedRing K]

/-! ## The borders -/

section Borders

variable {hist : Histogram K} (hlen : 2 ≤ hist.length) (hs : SortedByCenter hist)
variable (hcount : ∀ bin ∈ hist, 0 ≤ bin.count)

omit [IsStrictOrderedRing K] [Field K] in
include hs in
theorem center_le {i j : Nat} {a b : Bin K} (hi : hist[i]? = some a) (hj : hist[j]? = some b)
    (hij : i < j) : a.center ≤ b.center := by
  obtain ⟨hi', rfl⟩ := List.getElem?_eq_some_iff.1 hi
  obtain ⟨hj', rfl⟩ := List.getElem?_eq_some_iff.1 hj
  exact List.pairwise_iff_getElem.1 hs i j hi' hj' hij

include hlen hs hcount in
theorem outerEdge_le {first : Bin K} (h₀ : hist[0]? = some first) : outerEdge hist ≤ first.center := by
  obtain ⟨second, h₁⟩ : ∃ second, hist[1]? = some second := ⟨_, List.getElem?_eq_getElem hlen⟩
  have hsecond : 0 ≤ second.count := hcount _ (List.mem_of_getElem? h₁)
  rw [outerEdge_eq h₀ h₁]
  split_ifs with hpos
  · have := le_weighted hsecond (add_pos_of_pos_of_nonneg hpos hsecond) (center_le hs h₀ h₁ zero_lt_one)
    linarith
  · exact le_rfl

include hlen hs hcount in
theorem le_outerEdge_reverse {last : Bin K} (h₀ : hist[hist.length - 1]? = some last) :
    last.center ≤ outerEdge hist.reverse := by
  obtain ⟨previous, h₁⟩ : ∃ previous, hist[hist.length - 2]? = some previous :=
    ⟨_, List.getElem?_eq_getElem (by omega)⟩
  have hprevious : 0 ≤ previous.count := hcount _ (List.mem_of_getElem? h₁)
  rw [outerEdge_reverse hlen h₁ h₀]
  split_ifs with hpos
  · have := weighted_le hprevious (add_pos_of_nonneg_of_pos hprevious hpos)
      (center_le hs h₁ h₀ (by omega))
    linarith
  · exact le_rfl

include hlen hs hcount in
/-- The borders are in order. -/
theorem border_mono : Monotone (border hist) := by
  refine monotone_nat_of_le_succ fun k => ?_
  have hbin : ∀ {i}, (h : i < hist.length) → hist[i]? = some hist[i] := List.getElem?_eq_getElem
  rcases Nat.eq_zero_or_pos k with rfl | h₀
  · rw [border_inner (by omega)]
    exact outerEdge_le hlen hs hcount (hbin _)
  obtain ⟨k, rfl⟩ : ∃ i, k = i + 1 := ⟨k - 1, by omega⟩
  rcases lt_trichotomy (k + 1) hist.length with h | h | h
  · rw [border_inner (by omega), border_inner h]
    exact center_le hs (hbin _) (hbin _) (Nat.lt_succ_self k)
  · have hk : k = hist.length - 1 := by omega
    rw [border_inner (by omega), border_last (by omega)]
    exact le_outerEdge_reverse hlen hs hcount (hk ▸ hbin (by omega))
  · rw [border_last (by omega), border_last (by omega)]

include hlen hcount in
/-- A segment that holds something has its borders at its ends. -/
theorem segmentBins_exact {k : Nat} (hk : k ≤ hist.length) (hmass : 0 < leftCount hist k + countAt hist k) :
    ∃ left right, Tolerances.exact.segmentBins hist (k - 1) = .ok (left, right) ∧
      left.center = border hist k ∧ right.center = border hist (k + 1) := by
  have hc : ∀ i (h : i < hist.length), (0 : K) ≤ hist[i].count := fun i h => hcount _ (List.getElem_mem h)
  have hbin : ∀ {i}, (h : i < hist.length) → hist[i]? = some hist[i] := List.getElem?_eq_getElem
  rcases Nat.eq_zero_or_pos k with rfl | h₀
  · have hpos : (0 : K) < hist[0].count := by
      rwa [leftCount, if_pos rfl, zero_add, countAt_of_lt (by omega)] at hmass
    have hsum := add_pos_of_pos_of_nonneg hpos (hc 1 hlen)
    have hseg := Tolerances.exact.segmentBins_first hlen
    rw [weightedAverage_exact hsum.ne'] at hseg
    refine ⟨_, _, hseg, ?_, (border_inner (by omega)).symm⟩
    rw [border_zero, outerEdge_eq (hbin (by omega)) (hbin hlen), if_pos hpos]
  rcases hk.eq_or_lt with rfl | hk
  · have hpos : (0 : K) < hist[hist.length - 1].count := by
      rwa [leftCount, if_neg (by omega), countAt_of_le le_rfl, add_zero, countAt_of_lt (by omega)] at hmass
    have hsum := add_pos_of_nonneg_of_pos (hc (hist.length - 2) (by omega)) hpos
    have hseg := Tolerances.exact.segmentBins_last hlen
    rw [weightedAverage_exact hsum.ne'] at hseg
    refine ⟨_, _, hseg, ?_, ?_⟩
    · have hlast := border_inner (show hist.length - 1 < hist.length by omega)
      rw [← hlast]
      congr 1; omega
    · rw [border_last (by omega), outerEdge_reverse hlen (hbin (by omega)) (hbin (by omega)), if_pos hpos]
  · refine ⟨_, _, Tolerances.segmentBins_inner _ h₀ hk, ?_, (border_inner hk).symm⟩
    have hleft := border_inner (show k - 1 < hist.length by omega)
    rw [← hleft]
    congr 1; omega

end Borders

/-! ## The place of a quantile -/

/-- The value at `z` in segment `k`. -/
def place (hist : Histogram K) (k : Nat) (z : K) : K :=
  border hist k + (border hist (k + 1) - border hist k) * z

/-- `z` in segment `k` is where the mass is the `p`-th part of the total. -/
structure Placed (hist : Histogram K) (p : K) (k : Nat) (z : K) : Prop where
  z_nonneg : 0 ≤ z
  z_le_one : z ≤ 1
  passed_le : passed hist k ≤ p * hist.total
  lt_passed : p * hist.total < passed hist (k + 1)
  mass_eq : passed hist k + mass (leftCount hist k) (countAt hist k) z = p * hist.total

section Places

variable {hist : Histogram K} {p q z w : K} {k j : Nat} (hborder : Monotone (border hist))

include hborder in
theorem place_between (hz : 0 ≤ z) (hz' : z ≤ 1) :
    border hist k ≤ place hist k z ∧ place hist k z ≤ border hist (k + 1) := by
  have hwidth : 0 ≤ border hist (k + 1) - border hist k := sub_nonneg.2 (hborder (Nat.le_succ k))
  have hnonneg := mul_nonneg hwidth hz
  have hle := mul_le_of_le_one_right hwidth hz'
  unfold place
  exact ⟨by linarith, by linarith⟩

include hborder in
/-- **Quantiles are monotone**, within a segment and across its borders. -/
theorem place_mono (hcount : ∀ bin ∈ hist, 0 ≤ bin.count) (htotal : 0 < hist.total) (hpq : p ≤ q)
    (h : Placed hist p k z) (h' : Placed hist q j w) : place hist k z ≤ place hist j w := by
  have hmono := passed_mono hcount
  have hmass : p * hist.total ≤ q * hist.total := mul_le_mul_of_nonneg_right hpq htotal.le
  rcases lt_trichotomy k j with hkj | rfl | hkj
  · calc place hist k z ≤ border hist (k + 1) := (place_between hborder h.z_nonneg h.z_le_one).2
      _ ≤ border hist j := hborder hkj
      _ ≤ place hist j w := (place_between hborder h'.z_nonneg h'.z_le_one).1
  · have hl : 0 ≤ leftCount hist k := leftCount_nonneg hcount k
    have hr : 0 ≤ countAt hist k := countAt_nonneg hcount k
    have hpos : 0 < leftCount hist k + countAt hist k := by
      have := h.passed_le.trans_lt h.lt_passed
      rw [passed_succ] at this
      linarith
    have hzw : z ≤ w := by
      refine ((mass_strictMonoOn hl hr hpos).le_iff_le ⟨h.z_nonneg, h.z_le_one⟩
        ⟨h'.z_nonneg, h'.z_le_one⟩).1 ?_
      linarith [h.mass_eq, h'.mass_eq]
    have hwidth : 0 ≤ border hist (k + 1) - border hist k := sub_nonneg.2 (hborder (Nat.le_succ k))
    have := mul_le_mul_of_nonneg_left hzw hwidth
    unfold place
    linarith
  · have hpassed : passed hist (j + 1) ≤ passed hist k := hmono hkj
    linarith [h.passed_le, h'.lt_passed]

end Places

/-! ## What the loop reaches -/

omit [Field K] [LinearOrder K] [IsStrictOrderedRing K] in
/-- One bin more, and the size is the smallest `int`. -/
theorem rounds_of_eq {hist : Histogram K} (h : hist.length = 2 ^ 31) : rounds hist = 0 := by
  have hsize : intSize hist = -2147483648 := by
    unfold intSize
    rw [h]
    simp [Int.bmod]
  rw [rounds, hsize]
  rfl

section Reach

variable {hist : Histogram K} (hcount : ∀ bin ∈ hist, 0 ≤ bin.count)

include hcount in
theorem total_drop_eq_zero_iff {k : Nat} :
    Histogram.total (hist.drop k) = 0 ↔ ∀ i bin, hist[i]? = some bin → k ≤ i → bin.count = 0 := by
  constructor
  · intro h i bin hi hk
    have hmem : bin ∈ hist.drop k := by
      refine List.mem_of_getElem? (i := i - k) ?_
      rw [List.getElem?_drop, ← hi]
      congr 1; omega
    refine List.all_zero_of_le_zero_le_of_sum_eq_zero (fun x hx => ?_) h (List.mem_map_of_mem hmem)
    obtain ⟨b, hb, rfl⟩ := List.mem_map.1 hx
    exact hcount b (List.mem_of_mem_drop hb)
  · intro h
    refine List.sum_eq_zero fun x hx => ?_
    obtain ⟨bin, hbin, rfl⟩ := List.mem_map.1 hx
    obtain ⟨i, hi⟩ := List.getElem?_of_mem hbin
    rw [List.getElem?_drop] at hi
    exact h _ bin hi (Nat.le_add_right k i)

include hcount in
/-- The segments up to `k` hold everything where the bins from `k` on are
empty. -/
theorem passed_succ_eq_total_iff {k : Nat} :
    passed hist (k + 1) = hist.total ↔ ∀ i bin, hist[i]? = some bin → k ≤ i → bin.count = 0 := by
  have hk := total_take_add_drop hist k
  have hk' := total_take_add_drop hist (k + 1)
  have hnonneg := total_drop_nonneg hcount k
  have hnonneg' := total_drop_nonneg hcount (k + 1)
  have hstep := total_take_succ hist k
  have hat := countAt_nonneg hcount k
  rw [← total_drop_eq_zero_iff hcount, passed, Nat.add_sub_cancel]
  constructor
  · intro h; linarith
  · intro h; linarith

end Reach

/-! ## `at` -/

section At

variable {root : K → K} (hroot : ∀ d, 0 ≤ d → 0 ≤ root d ∧ root d * root d = d)
variable {st : Statistics K} (hlen : 2 ≤ st.histogram.length)
variable (hcount : ∀ bin ∈ st.histogram, 0 ≤ bin.count) (htotal : 0 < st.histogram.total) {p : K}

include hroot hlen hcount in
/-- What `at` finds for a part of what the loop reaches. -/
theorem exists_placed (hp : 0 ≤ p * st.histogram.total)
    (hreach : p * st.histogram.total < passed st.histogram (rounds st.histogram + 1)) :
    ∃ k left right z, Inverts root st.histogram p k left right z ∧ Placed st.histogram p k z ∧
      left.center = border st.histogram k ∧ right.center = border st.histogram (k + 1) := by
  have hcomm : p * st.histogram.total = st.histogram.total * p := mul_comm _ _
  rw [hcomm] at hp hreach
  obtain ⟨k, hstops, hscan⟩ := Tolerances.exact.scan_start le_rfl hp
  have hpassed : passed st.histogram k ≤ st.histogram.total * p := by
    simpa using hstops.passed_le
  have hlt : st.histogram.total * p < passed st.histogram (k + 1) := by
    rcases hstops.reached with hk | hk
    · rwa [hk]
    · simpa using hk
  have hx := sub_nonneg.2 hpassed
  have hmass : st.histogram.total * p - passed st.histogram k <
      (leftCount st.histogram k + countAt st.histogram k) / 2 := by
    rw [passed_succ] at hlt
    linarith
  have hk : k ≤ st.histogram.length := by
    -- Past the last segment there is nothing.
    by_contra hk
    have hzero : leftCount st.histogram k = 0 := by
      rw [leftCount, if_neg (by omega), countAt_of_le (by omega)]
    rw [hzero, countAt_of_le (by omega)] at hmass
    linarith
  obtain ⟨left, right, hseg, hleft, hright⟩ := segmentBins_exact hlen hcount hk (by linarith)
  obtain ⟨hcl, hcr⟩ := segmentBins_counts _ hlen hseg
  obtain ⟨z, hfind, hz, hz', hmz⟩ :=
    findZ_exact hroot (leftCount_nonneg hcount k) (countAt_nonneg hcount k) hx hmass
  have heq : passed st.histogram k + mass (leftCount st.histogram k) (countAt st.histogram k) z =
      p * st.histogram.total := by linarith
  refine ⟨k, left, right, z, ⟨?_, hz, hz', by rwa [hcl, hcr]⟩,
    ⟨hz, hz', by rwa [hcomm], by rwa [hcomm], heq⟩, hleft, hright⟩
  rw [← hcl, ← hcr] at hfind
  exact bind_eq_ok.2 ⟨_, hscan, bind_eq_ok.2 ⟨_, hseg, bind_eq_ok.2 ⟨z, hfind, rfl⟩⟩⟩

include hlen hcount in
/-- What is found is a part of what the loop reaches. -/
theorem Inverts.mass_reached {k : Nat} {left right : Bin K} {z : K} (hp : 0 ≤ st.histogram.total * p)
    (h : Inverts root st.histogram p k left right z) :
    p * st.histogram.total ≤ passed st.histogram (rounds st.histogram + 1) := by
  obtain ⟨j, hstops, hscan⟩ := Tolerances.exact.scan_start le_rfl hp
  obtain ⟨found, hfound, hrest⟩ := bind_eq_ok.1 h.locate
  obtain rfl := Except.ok.inj (hscan.symm.trans hfound)
  obtain ⟨ends, hseg, hrest⟩ := bind_eq_ok.1 hrest
  obtain ⟨z', -, hrest⟩ := bind_eq_ok.1 hrest
  simp only [Except.ok.injEq, Prod.mk.injEq] at hrest
  obtain ⟨hk, hends, -⟩ := hrest
  obtain rfl : j = k := by omega
  obtain rfl : ends = (left, right) := Prod.ext hends.1 hends.2
  obtain ⟨hcl, hcr⟩ := segmentBins_counts _ hlen hseg
  have hmass : mass left.count right.count z ≤ (left.count + right.count) / 2 := by
    rw [hcl, hcr]
    exact mass_le (leftCount_nonneg hcount j) (countAt_nonneg hcount j) h.z_nonneg h.z_le_one
  have hreached : passed st.histogram (j + 1) ≤ passed st.histogram (rounds st.histogram + 1) :=
    passed_mono hcount (Nat.succ_le_succ hstops.le_rounds)
  have hmass_eq := h.mass_eq
  rw [hcl, hcr] at hmass hmass_eq
  rw [passed_succ] at hreached
  linarith

omit [IsStrictOrderedRing K] in
include hlen htotal in
theorem quantileAt_exact {k : Nat} {left right : Bin K} {z : K}
    (h : Inverts root st.histogram p k left right z) :
    Tolerances.exact.quantileAt root (some st) p =
      .ok (left.center + (right.center - left.center) * z) := by
  have hsome : ¬ MathUtils.cmp (0 : K) st.histogram.total 0 ≤ 0 := not_le.2 (cmp_exact_pos.2 htotal)
  unfold Tolerances.quantileAt
  simp only [Tolerances.exact_double]
  rw [if_neg (by omega), if_neg hsome, if_neg (by omega), h.locate]
  rfl

include hroot hlen hcount htotal in
/-- Quantiles invert the mass where, and only where, the loop reaches all of
it. -/
theorem quantilesInvert_iff (hs : SortedByCenter st.histogram) :
    QuantilesInvert root st ↔
      ∀ i bin, st.histogram[i]? = some bin → rounds st.histogram ≤ i → bin.count = 0 := by
  rw [← passed_succ_eq_total_iff hcount]
  have hborder := border_mono hlen hs hcount
  constructor
  · intro h
    by_contra hne
    have hlt := lt_of_le_of_ne (passed_succ_le_total hcount (rounds st.histogram)) hne
    -- A part between what is reached and the whole.
    obtain ⟨part, hpart⟩ : ∃ part,
      part = (passed st.histogram (rounds st.histogram + 1) + st.histogram.total) / 2 := ⟨_, rfl⟩
    have hpart0 : 0 ≤ part := by
      have hzero := passed_mono hcount (Nat.zero_le (rounds st.histogram + 1))
      rw [passed_zero] at hzero
      linarith
    have hpartEq : part / st.histogram.total * st.histogram.total = part := div_mul_cancel₀ part htotal.ne'
    have hone : part / st.histogram.total < 1 := by
      rw [div_lt_one htotal]; linarith
    obtain ⟨x, y, -, -, -, -, -, k, left, right, z, hinv⟩ :=
      h _ _ (div_nonneg hpart0 htotal.le) le_rfl hone
    have hreached := hinv.mass_reached hlen hcount (by rwa [mul_comm, hpartEq])
    rw [hpartEq] at hreached
    linarith
  · intro hreach p q hp hpq hq
    have hplaced : ∀ p, 0 ≤ p → p < 1 → ∃ k left right z, Inverts root st.histogram p k left right z ∧
        Placed st.histogram p k z ∧ left.center = border st.histogram k ∧
        right.center = border st.histogram (k + 1) := by
      intro p hp hp'
      refine exists_placed hroot hlen hcount (mul_nonneg hp htotal.le) ?_
      rw [hreach]
      exact mul_lt_of_lt_one_left htotal hp'
    obtain ⟨k, left, right, z, hinv, hz, hl, hr⟩ := hplaced p hp (hpq.trans_lt hq)
    obtain ⟨j, left', right', w, hinv', hw, hl', hr'⟩ := hplaced q (hp.trans hpq) hq
    have hx := quantileAt_exact hlen htotal hinv
    have hy := quantileAt_exact hlen htotal hinv'
    rw [hl, hr] at hx
    rw [hl', hr'] at hy
    obtain ⟨hlow, hhigh⟩ := place_between hborder hz.z_nonneg hz.z_le_one
    refine ⟨_, _, hx, hy, place_mono hborder hcount htotal hpq hz hw, ?_, ?_, k, left, right, z, hinv⟩
    · exact (hborder (Nat.zero_le k)).trans hlow
    · have hlast : border st.histogram (k + 1) ≤ outerEdge st.histogram.reverse := by
        rw [← border_last (show st.histogram.length < st.histogram.length + k + 1 by omega)]
        exact hborder (by omega)
      exact hhigh.trans hlast

end At

end Exact

/-! ## Over the reals -/

theorem sqrt_root_of_nonneg (d : ℝ) (hd : 0 ≤ d) : 0 ≤ Real.sqrt d ∧ Real.sqrt d * Real.sqrt d = d :=
  ⟨Real.sqrt_nonneg d, Real.mul_self_sqrt hd⟩

/-- **Quantiles are monotone and invert the mass.** For a histogram of two bins
or more, in order, of counts that are not negative and not all 0, `at` without
tolerances answers every `0 ≤ p < 1`, monotonically, between the outer edges,
and at a place up to which the mass is the `p`-th part of the total, exactly
when the bins from `(int)size() + 1` on are empty: below `2^31` bins, always. -/
theorem quantiles_invert_iff {st : Statistics ℝ} (hlen : 2 ≤ st.histogram.length)
    (hs : SortedByCenter st.histogram) (hcount : ∀ bin ∈ st.histogram, 0 ≤ bin.count)
    (htotal : 0 < st.histogram.total) :
    (QuantilesInvert Real.sqrt st ↔
      ∀ i bin, st.histogram[i]? = some bin → rounds st.histogram ≤ i → bin.count = 0) ∧
    (st.histogram.length < 2 ^ 31 → QuantilesInvert Real.sqrt st) := by
  have hiff := quantilesInvert_iff sqrt_root_of_nonneg hlen hcount htotal hs
  refine ⟨hiff, fun hshort => hiff.2 fun i bin hi hrounds => ?_⟩
  rw [rounds_of_lt hshort] at hrounds
  rw [List.getElem?_eq_none (by omega)] at hi
  cases hi

/-- Two bins of a count each. -/
theorem quantiles_invert_sample :
    ∃ st : Statistics ℝ, st.histogram = [⟨1, 1, 0⟩, ⟨2, 1, 0⟩] ∧ QuantilesInvert Real.sqrt st := by
  obtain ⟨st, -, hhist⟩ := two_values (K := ℝ)
  refine ⟨st, hhist, (quantiles_invert_iff ?_ ?_ ?_ ?_).2 ?_⟩ <;> rw [hhist]
  · simp
  · simp [SortedByCenter]
  · simp
  · simp [Histogram.total]
  · simp

/-- `2^31` bins of a count each: the size is no `int`, and the loop looks at no
segment. -/
theorem quantiles_of_long_histogram :
    ∃ st : Statistics ℝ, st.histogram.length = 2 ^ 31 ∧ SortedByCenter st.histogram ∧
      (∀ bin ∈ st.histogram, 0 ≤ bin.count) ∧ 0 < st.histogram.total ∧
      ¬ QuantilesInvert Real.sqrt st := by
  obtain ⟨n, hn⟩ : ∃ n, n = 2 ^ 31 := ⟨_, rfl⟩
  obtain ⟨st, hst⟩ : ∃ st : Statistics ℝ, st.histogram = List.replicate n ⟨0, 1, 0⟩ :=
    ⟨{ Statistics.initial (Statistics.sampleConfig 2 0) with
      histogram := List.replicate n ⟨0, 1, 0⟩ }, rfl⟩
  have hbin : ∀ bin ∈ st.histogram, bin = ⟨0, 1, 0⟩ := by
    rw [hst]
    exact fun bin hb => List.eq_of_mem_replicate hb
  have hlen : st.histogram.length = n := by rw [hst, List.length_replicate]
  have hsorted : SortedByCenter st.histogram :=
    List.pairwise_of_forall_mem_list fun a ha b hb => by rw [hbin a ha, hbin b hb]
  have hcount : ∀ bin ∈ st.histogram, 0 ≤ bin.count := by
    intro bin hb
    rw [hbin bin hb]
    exact zero_le_one
  have htotal : st.histogram.total = n := by
    rw [hst, Histogram.total, List.map_replicate, List.sum_replicate, nsmul_one]
  have hpos : 0 < st.histogram.total := by
    rw [htotal, Nat.cast_pos]
    omega
  have hrounds : rounds st.histogram = 0 := rounds_of_eq (hlen.trans hn)
  have hfirst : st.histogram[0]? = some ⟨0, 1, 0⟩ := by
    rw [hst, List.getElem?_replicate, if_pos (by omega)]
  refine ⟨st, hlen.trans hn, hsorted, hcount, hpos, fun h => ?_⟩
  have hiff := quantilesInvert_iff sqrt_root_of_nonneg (by omega) hcount hpos hsorted
  exact one_ne_zero (hiff.1 h 0 _ hfirst (by rw [hrounds]))

end Handystats
