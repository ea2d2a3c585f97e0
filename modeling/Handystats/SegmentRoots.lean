/-
When `find_z` finds a root in a segment at which the scan stops.

The polynomial is not positive at 0 and positive at 1, so it has a root between
them. Of counts that are equal up to the `long double` tolerance the linear
equation's root is accepted, and of two different roots one is. But the
discriminant, of the order of the counts squared, is compared with the same
tolerance: for small counts it passes as zero and the vertex is taken for a
double root, and that is in the interval only where the smaller count is next to
nothing beside the difference (`vertex_inUnit_iff`).
-/
import Handystats.QuantileTotal

namespace Handystats

open Runs MathUtils Quadratic

variable {K : Type} [Field K] [LinearOrder K]

/-- The counts differ, their discriminant passes as zero, and the vertex is not in
the interval: the smaller count is above the tolerance, in units of the
difference. -/
def VertexTaken (l r x : K) : Prop :=
  longDoubleEps < |r - l| ∧ 4 * (l ^ 2 + 2 * (r - l) * x) ≤ longDoubleEps ∧
    doubleEps * |r - l| < min l r

variable [IsStrictOrderedRing K]

/-- Where the vertex is. -/
theorem vertex_inUnit_iff {l r : K} (hl : 0 ≤ l) (hne : r - l ≠ 0) :
    InUnit (l / (l - r)) ↔ min l r ≤ doubleEps * |r - l| := by
  have hε := doubleEps_pos (K := K)
  unfold InUnit
  rcases lt_or_gt_of_ne hne with h | h
  · have hpos : 0 < l - r := by linarith
    have hlow : -doubleEps ≤ l / (l - r) := by
      have hquot : 0 ≤ l / (l - r) := div_nonneg hl hpos.le
      linarith
    rw [min_eq_right (by linarith), abs_of_neg h, div_le_iff₀ hpos, and_iff_right hlow]
    constructor
    · intro h; linarith
    · intro h; linarith
  · have hneg : l - r < 0 := by linarith
    have hhigh : l / (l - r) ≤ 1 + doubleEps := by
      have hquot : l / (l - r) ≤ 0 := div_nonpos_of_nonneg_of_nonpos hl hneg.le
      linarith
    rw [min_eq_left (by linarith), abs_of_pos h, le_div_iff_of_neg hneg, and_iff_left hhigh]
    constructor
    · intro h; linarith
    · intro h; linarith

/-! ## `solve_quadratic` and `find_z` -/

/-- Its square root is of a number above the tolerance. -/
theorem solveQuadratic_returns (root : K → K) (a b c : K) :
    ∃ roots, Tolerances.source.solveQuadratic root a b c = .ok roots := by
  have hε := doubleEps_pos (K := K)
  have hδ := longDoubleEps_pos (K := K)
  rw [Tolerances.solveQuadratic]
  dsimp only
  split_ifs with ha hb hneg hzero
  · exact ⟨_, rfl⟩
  · exact ⟨_, rfl⟩
  · exact ⟨_, rfl⟩
  · exact ⟨_, rfl⟩
  · have hsqrt : Tolerances.source.sqrt root (b * b - 4 * a * c) = .ok (root (b * b - 4 * a * c)) := by
      rw [Tolerances.sqrt, Tolerances.source_double, if_neg]
      rw [Tolerances.source_longDouble, cmp_neg, not_lt] at hneg
      rw [cmp_neg, not_lt]
      linarith [doubleEps_eq (K := K)]
    simp only [hsqrt]
    exact ⟨_, rfl⟩

/-- `find_z` returns, or throws that it has not found a root. -/
theorem findZ_cases (root : K → K) (a b c : K) :
    (∃ z, findZ root a b c = .ok z) ∨ findZ root a b c = .error (.logicError "find_z: not found") := by
  obtain ⟨roots, hroots⟩ := solveQuadratic_returns root a b c
  cases hfind : roots.find? fun z => 0 ≤ MathUtils.cmp Tolerances.source.double z 0 &&
      MathUtils.cmp Tolerances.source.double z 1 ≤ 0 with
  | some z => exact .inl ⟨z, bind_eq_ok.2 ⟨roots, hroots, by rw [hfind]⟩⟩
  | none => exact .inr (bind_eq_error.2 (.inr ⟨roots, hroots, by rw [hfind]⟩))

section Segment

variable {root : K → K} (hroot : ∀ d, 0 < d → 0 < root d ∧ root d * root d = d)
variable {l r x : K} (hl : 0 ≤ l) (hx : 0 ≤ x) (hstop : x + doubleEps < (l + r) / 2)

include hl hx hstop in
/-- Equal counts: the root of the linear equation. -/
theorem linear_inUnit (hflat : |r - l| ≤ longDoubleEps) : longDoubleEps < 2 * l ∧ InUnit (x / l) := by
  have hδ := longDoubleEps_pos (K := K)
  have hε := doubleEps_eq (K := K)
  obtain ⟨-, hupper⟩ := abs_le.1 hflat
  have hb : longDoubleEps < 2 * l := by linarith
  have hpos : 0 < l := by linarith
  have hquot : 0 ≤ x / l := div_nonneg hx hl
  have hquot' : x / l ≤ 1 := by
    rw [div_le_one hpos]
    linarith
  exact ⟨hb, by linarith, by linarith⟩

include hx hstop in
theorem discriminant_nonneg : 0 ≤ 4 * l ^ 2 + 8 * (r - l) * x := by
  have hε := doubleEps_pos (K := K)
  rcases le_total l r with h | h
  · have hproduct : 0 ≤ (r - l) * x := mul_nonneg (by linarith) hx
    have hsq : 0 ≤ l ^ 2 := sq_nonneg l
    linarith
  · -- The remaining count is below the mean, at which the discriminant is `4 r²`.
    have hproduct : (l - r) * x ≤ (l - r) * ((l + r) / 2) :=
      mul_le_mul_of_nonneg_left (by linarith) (by linarith)
    have hmean : 4 * l ^ 2 - 8 * ((l - r) * ((l + r) / 2)) = 4 * r ^ 2 := by ring
    have hsq : 0 ≤ r ^ 2 := sq_nonneg r
    linarith

include hroot hx hstop in
/-- Two roots: the sign changes between 0 and 1. -/
theorem two_roots_inUnit (hne : r - l ≠ 0) (hd : 0 < 4 * l ^ 2 + 8 * (r - l) * x) :
    quadratic (r - l) (2 * l) (-2 * x) (-doubleEps) *
        quadratic (r - l) (2 * l) (-2 * x) (1 + doubleEps) ≤ 0 ∨
      (InUnit (l / (l - r)) ∧ 0 ≤ (r - l) * quadratic (r - l) (2 * l) (-2 * x) (-doubleEps)) := by
  have hε := doubleEps_pos (K := K)
  obtain ⟨hs, hsq⟩ := hroot _ hd
  have hdisc : root (4 * l ^ 2 + 8 * (r - l) * x) * root (4 * l ^ 2 + 8 * (r - l) * x) =
      2 * l * (2 * l) - 4 * (r - l) * (-2 * x) := by
    rw [hsq]; ring
  have hvertex : -(2 * l) / 2 / (r - l) = l / (l - r) := by
    rw [← neg_sub r l, div_neg]
    ring
  have hsign : quadratic (r - l) (2 * l) (-2 * x) 0 * quadratic (r - l) (2 * l) (-2 * x) 1 ≤ 0 := by
    have hzero : quadratic (r - l) (2 * l) (-2 * x) 0 = -2 * x := by unfold quadratic; ring
    have hone : quadratic (r - l) (2 * l) (-2 * x) 1 = l + r - 2 * x := by unfold quadratic; ring
    rw [hzero, hone]
    exact mul_nonpos_of_nonpos_of_nonneg (by linarith) (by linarith)
  have hunit := (exists_root_iff hne hs hdisc zero_le_one).2 (.inl hsign)
  have hwiden : ∀ {z : K}, 0 ≤ z ∧ z ≤ 1 → -doubleEps ≤ z ∧ z ≤ 1 + doubleEps := by
    intro z hz
    exact ⟨by linarith [hz.1], by linarith [hz.2]⟩
  have hwide := (exists_root_iff hne hs hdisc (by linarith)).1 (hunit.imp hwiden hwiden)
  rwa [hvertex] at hwide

include hroot hl hx hstop in
/-- A segment at which the scan stops is solvable unless the vertex is taken. -/
theorem solvable_stopped_iff : Solvable l r x ↔ ¬ VertexTaken l r x := by
  have hδ := longDoubleEps_pos (K := K)
  have hdisc := discriminant_nonneg hx hstop
  have hfactor : 4 * (l ^ 2 + 2 * (r - l) * x) = 4 * l ^ 2 + 8 * (r - l) * x := by ring
  rw [Solvable, VertexTaken, hfactor]
  rcases le_or_gt |r - l| longDoubleEps with hflat | hdiffer
  · exact iff_of_true (.inl ⟨hflat, linear_inUnit hl hx hstop hflat⟩) fun h => absurd h.1 (not_lt.2 hflat)
  have hne : r - l ≠ 0 := fun h => by rw [h, abs_zero] at hdiffer; linarith
  rcases le_or_gt (4 * l ^ 2 + 8 * (r - l) * x) longDoubleEps with hsmall | hlarge
  · rw [abs_of_nonneg hdisc, vertex_inUnit_iff hl hne]
    simp only [not_le.2 hdiffer, hdiffer, hsmall, not_lt.2 hsmall, false_and, true_and, or_false, false_or,
      not_lt]
  · refine iff_of_true (.inr (.inr ⟨hdiffer, hlarge, ?_⟩)) fun h => absurd h.2.1 (not_le.2 hlarge)
    exact two_roots_inUnit hroot hx hstop hne (hδ.trans hlarge)

include hroot hl hx hstop in
/-- **Where `find_z` finds a root** in a segment at which the scan stops. -/
theorem findZ_stopped_iff :
    (∃ z, findZ root (r - l) (2 * l) (-2 * x) = .ok z) ↔ ¬ VertexTaken l r x :=
  (findZ_iff hroot hl).trans (solvable_stopped_iff hroot hl hx hstop)

end Segment

/-! ## The segment of a quantile -/

section Quantile

variable {root : K → K} (hroot : ∀ d, 0 < d → 0 < root d ∧ root d * root d = d)
variable {hist : Histogram K} (hcount : ∀ bin ∈ hist, 0 ≤ bin.count)

include hcount in
/-- A segment that is more than the tolerance has ends, and they have weights. -/
theorem readable_of_volume {k : Nat} (hvolume : doubleEps < (leftCount hist k + countAt hist k) / 2) :
    Readable hist k := by
  have hε := doubleEps_pos (K := K)
  have hδ := longDoubleEps_pos (K := K)
  have htol := doubleEps_eq (K := K)
  have hle : k ≤ hist.length := by
    by_contra hlt
    rw [leftCount, if_neg (by omega), countAt_of_le (by omega), countAt_of_le (by omega)] at hvolume
    linarith
  refine ⟨hle, fun hk => ?_, fun hk => ?_⟩
  · subst hk
    have hsecond := countAt_nonneg hcount 1
    rw [leftCount, if_pos rfl] at hvolume
    linarith
  · have hprevious := countAt_nonneg hcount (hist.length - 2)
    rw [hk, countAt_of_le le_rfl, leftCount] at hvolume
    split_ifs at hvolume
    · linarith
    · linarith

include hroot hcount in
/-- **What can be in the way of a quantile.** In a segment whose volume stops the
loop, with a remaining count that is not negative, it is only that the vertex is
taken for a root. -/
theorem quantileDefined_iff_vertex {p : K} :
    QuantileDefined hist p ↔
      hist.length ≤ 1 ∨ hist.total ≤ doubleEps ∨
        ∀ k, StopsAt hist (hist.total * p) k →
          if passed hist k ≤ hist.total * p ∧ hist.total * p + doubleEps < passed hist (k + 1) then
            ¬ VertexTaken (leftCount hist k) (countAt hist k) (hist.total * p - passed hist k)
          else
            Readable hist k ∧ Solvable (leftCount hist k) (countAt hist k)
              (hist.total * p - passed hist k) := by
  refine or_congr_right (or_congr_right (forall₂_congr fun k _ => ?_))
  split_ifs with h
  · obtain ⟨hpassed, hreached⟩ := h
    have hx : 0 ≤ hist.total * p - passed hist k := sub_nonneg.2 hpassed
    have hstop : hist.total * p - passed hist k + doubleEps < (leftCount hist k + countAt hist k) / 2 := by
      rw [passed_succ] at hreached
      linarith
    have hreadable := readable_of_volume hcount (lt_of_le_of_lt (by linarith) hstop)
    rw [and_iff_right hreadable]
    exact solvable_stopped_iff hroot (leftCount_nonneg hcount k) hx hstop
  · rfl

end Quantile

/-! ## Over the reals -/

/-- **The root of a segment.** Where the scan stops with a remaining count that is
not negative, `find_z` returns exactly if it does not take a vertex that is
outside the interval for a double root. (The right count need not be
restricted.) -/
theorem segment_root_iff {l r x : ℝ} (hl : 0 ≤ l) (hx : 0 ≤ x)
    (hstop : 0 < MathUtils.cmp doubleEps ((l + r) / 2) x) :
    (∃ z, findZ Real.sqrt (r - l) (2 * l) (-2 * x) = .ok z) ↔ ¬ VertexTaken l r x := by
  rw [cmp_pos doubleEps_pos] at hstop
  exact findZ_stopped_iff sqrt_root_of_pos hl hx hstop

theorem segment_root_sample : ∃ z, findZ Real.sqrt (3 - 1) (2 * 1) (-2 * 1) = .ok z := by
  have hε := doubleEps_value (K := ℝ)
  have hδ := longDoubleEps_value (K := ℝ)
  refine (segment_root_iff (l := 1) (r := 3) (x := 1) (by norm_num) (by norm_num) ?_).2 ?_
  · rw [cmp_pos doubleEps_pos, hε]
    norm_num
  · unfold VertexTaken
    rw [hε, hδ]
    norm_num

/-- A bin that has nearly faded before a full one, and nothing left: the root is
0, and the vertex, a little below `-2^-32`, is taken. -/
theorem segment_root_missed :
    0 < MathUtils.cmp doubleEps ((1 / 2 ^ 32 + 1) / 2) (0 : ℝ) ∧
      findZ Real.sqrt (1 - 1 / 2 ^ 32) (2 * (1 / 2 ^ 32)) (-2 * 0) =
        .error (.logicError "find_z: not found") := by
  have hε := doubleEps_value (K := ℝ)
  have hδ := longDoubleEps_value (K := ℝ)
  have hstop : 0 + doubleEps < ((1 / 2 ^ 32 : ℝ) + 1) / 2 := by
    rw [hε]
    norm_num
  have htaken : VertexTaken (1 / 2 ^ 32 : ℝ) 1 0 := by
    unfold VertexTaken
    rw [hε, hδ]
    norm_num
  refine ⟨(cmp_pos doubleEps_pos).2 hstop, (findZ_cases ..).resolve_left ?_⟩
  rw [findZ_stopped_iff sqrt_root_of_pos (by norm_num) le_rfl hstop, not_not]
  exact htaken

end Handystats
