/-
Where `get<tag::entropy>` is a number.

`checkedEntropy` is the computation with its divisions and logarithms as they
are on `double`: a quotient by zero, or the logarithm of what is not positive,
is no number. The width of a bin that is not empty is positive exactly when one
of its neighbours has another center. Two bins get the same center only by an
`update` with a value that is the center of a bin: what is merged lies between
what is around it.
-/
import Handystats.HistogramFacts

namespace Handystats

open Runs MathUtils Statistics

variable {K : Type} [Field K] [LinearOrder K]

/-! ## The computation, checked -/

/-- A quotient, where it is a number. -/
def divide (a b : K) : Option K := if b = 0 then none else some (a / b)

/-- A logarithm, where it is a number. -/
def logarithm (log : K → K) (x : K) : Option K := if 0 < x then some (log x) else none

/-- The bin before the one at `i`. -/
def leftNeighbour (histogram : Histogram K) (i : Nat) : Option (Bin K) :=
  if i = 0 then none else histogram[i - 1]?

/-- What the gap to a neighbour contributes to `bin_width`. -/
def checkedSide (bin : Bin K) (gap : Bin K → K) : Option (Bin K) → Option K
  | some other => divide (gap other * bin.count) (bin.count + other.count)
  | none => some 0

/-- `bin_width` of the bin at `i`. -/
def checkedWidth (histogram : Histogram K) (i : Nat) (bin : Bin K) : Option K := do
  let leftWidth ← checkedSide bin (fun left => bin.center - left.center) (leftNeighbour histogram i)
  let rightWidth ← checkedSide bin (fun right => right.center - bin.center) histogram[i + 1]?
  let width := leftWidth + rightWidth
  some (if i = 0 ∨ i + 1 = histogram.length then width * 2 else width)

/-- One round of the loop of `get_impl<tag::entropy>`. -/
def checkedRound (log : K → K) (histogram : Histogram K) (h : K) (bin : Bin K × Nat) : Option K :=
  if cmp doubleEps bin.1.count 0 ≤ 0 then some h
  else do
    let width ← checkedWidth histogram bin.2 bin.1
    let share ← divide bin.1.count histogram.total
    let density ← divide share width
    let logDensity ← logarithm log density
    let summand ← divide (bin.1.count * logDensity) histogram.total
    some (h - summand)

/-- `get_impl<tag::entropy>`, after the check of the tag. -/
def checkedEntropy (log : K → K) (histogram : Histogram K) : Option K :=
  if histogram.length ≤ 1 then some 0
  else if cmp doubleEps histogram.total 0 ≤ 0 then some 0
  else histogram.zipIdx.foldlM (checkedRound log histogram) 0

/-- Some neighbour of the bin at `i` has another center. -/
def Apart (histogram : Histogram K) (i : Nat) (bin : Bin K) : Prop :=
  ∃ other, (leftNeighbour histogram i = some other ∨ histogram[i + 1]? = some other) ∧
    other.center ≠ bin.center

/-! ## One side -/

/-- What `binWidth` adds for one side. -/
def sideWidth (bin : Bin K) (gap : Bin K → K) : Option (Bin K) → K
  | some other => gap other * bin.count / (bin.count + other.count)
  | none => 0

omit [LinearOrder K] in
theorem binWidth_eq (histogram : Histogram K) (i : Nat) (bin : Bin K) :
    binWidth histogram i bin =
      if i = 0 ∨ i + 1 = histogram.length then
        (sideWidth bin (fun left => bin.center - left.center) (leftNeighbour histogram i) +
          sideWidth bin (fun right => right.center - bin.center) histogram[i + 1]?) * 2
      else
        sideWidth bin (fun left => bin.center - left.center) (leftNeighbour histogram i) +
          sideWidth bin (fun right => right.center - bin.center) histogram[i + 1]? := rfl

section

variable [IsStrictOrderedRing K] {hist : Histogram K} {i : Nat} {bin : Bin K} {gap : Bin K → K}
variable {neighbour : Option (Bin K)}

section Side

variable (hbin : 0 < bin.count) (hcount : ∀ other, neighbour = some other → 0 ≤ other.count)

include hbin hcount in
theorem checkedSide_eq : checkedSide bin gap neighbour = some (sideWidth bin gap neighbour) := by
  cases neighbour with
  | none => rfl
  | some other =>
    have hsum : bin.count + other.count ≠ 0 := (add_pos_of_pos_of_nonneg hbin (hcount other rfl)).ne'
    simp only [checkedSide, divide, sideWidth, if_neg hsum]

include hbin hcount in
theorem sideWidth_nonneg (hgap : ∀ other, neighbour = some other → 0 ≤ gap other) :
    0 ≤ sideWidth bin gap neighbour := by
  cases neighbour with
  | none => exact le_rfl
  | some other =>
    exact div_nonneg (mul_nonneg (hgap other rfl) hbin.le) (add_nonneg hbin.le (hcount other rfl))

include hbin hcount in
theorem sideWidth_pos_iff :
    0 < sideWidth bin gap neighbour ↔ ∃ other, neighbour = some other ∧ 0 < gap other := by
  cases neighbour with
  | none => simp [sideWidth]
  | some other =>
    have hsum := add_pos_of_pos_of_nonneg hbin (hcount other rfl)
    simp only [sideWidth, div_pos_iff_of_pos_right hsum, mul_pos_iff_of_pos_right hbin,
      Option.some.injEq, exists_eq_left']

end Side

/-! ## The width -/

omit [Field K] [LinearOrder K] [IsStrictOrderedRing K] in
theorem mem_of_leftNeighbour {other : Bin K} (h : leftNeighbour hist i = some other) :
    other ∈ hist := by
  unfold leftNeighbour at h
  split_ifs at h
  exact List.mem_of_getElem? h

omit [Field K] [IsStrictOrderedRing K] in
/-- The centers around a bin of a histogram in order. -/
theorem SortedByCenter.le_neighbours (hs : SortedByCenter hist) (hi : hist[i]? = some bin) :
    (∀ other, leftNeighbour hist i = some other → other.center ≤ bin.center) ∧
      ∀ other, hist[i + 1]? = some other → bin.center ≤ other.center := by
  have hpair := List.pairwise_iff_getElem.1 hs
  obtain ⟨hlt, rfl⟩ := List.getElem?_eq_some_iff.1 hi
  refine ⟨fun other ho => ?_, fun other ho => ?_⟩
  · unfold leftNeighbour at ho
    split_ifs at ho with hi0
    obtain ⟨hlt', rfl⟩ := List.getElem?_eq_some_iff.1 ho
    exact hpair _ _ hlt' hlt (by omega)
  · obtain ⟨hlt', rfl⟩ := List.getElem?_eq_some_iff.1 ho
    exact hpair _ _ hlt hlt' (by omega)

section Width

variable (hs : SortedByCenter hist) (hcount : ∀ bin ∈ hist, 0 ≤ bin.count)
variable (hi : hist[i]? = some bin) (hbin : 0 < bin.count)

omit [IsStrictOrderedRing K] in
include hcount in
theorem leftNeighbour_count : ∀ other, leftNeighbour hist i = some other → 0 ≤ other.count :=
  fun other ho => hcount other (mem_of_leftNeighbour ho)

omit [IsStrictOrderedRing K] in
include hcount in
theorem rightNeighbour_count : ∀ other, hist[i + 1]? = some other → 0 ≤ other.count :=
  fun other ho => hcount other (List.mem_of_getElem? ho)

include hcount hbin in
/-- The quotients of the width are numbers. -/
theorem checkedWidth_eq : checkedWidth hist i bin = some (binWidth hist i bin) := by
  rw [checkedWidth, checkedSide_eq hbin (leftNeighbour_count hcount),
    checkedSide_eq hbin (rightNeighbour_count hcount), binWidth_eq]
  rfl

include hs hcount hi hbin in
/-- **The width of a bin.** It is not negative, and positive where a neighbour
has another center. -/
theorem binWidth_pos_iff :
    0 ≤ binWidth hist i bin ∧ (0 < binWidth hist i bin ↔ Apart hist i bin) := by
  obtain ⟨hleft, hright⟩ := hs.le_neighbours hi
  have hl : 0 ≤ sideWidth bin (fun left => bin.center - left.center) (leftNeighbour hist i) :=
    sideWidth_nonneg hbin (leftNeighbour_count hcount) fun other ho => sub_nonneg.2 (hleft other ho)
  have hr : 0 ≤ sideWidth bin (fun right => right.center - bin.center) hist[i + 1]? :=
    sideWidth_nonneg hbin (rightNeighbour_count hcount) fun other ho => sub_nonneg.2 (hright other ho)
  have hsum : ∀ {a b : K}, 0 ≤ a → 0 ≤ b → (0 < a + b ↔ 0 < a ∨ 0 < b) := by
    intro a b ha hb
    constructor
    · intro h
      by_contra hno
      rw [not_or, not_lt, not_lt] at hno
      linarith
    · intro h
      rcases h with h | h <;> linarith
  have hapart : Apart hist i bin ↔
      (∃ other, leftNeighbour hist i = some other ∧ 0 < bin.center - other.center) ∨
        ∃ other, hist[i + 1]? = some other ∧ 0 < other.center - bin.center := by
    simp only [Apart, or_and_right, exists_or, sub_pos]
    refine or_congr (exists_congr fun other => ?_) (exists_congr fun other => ?_)
    · exact and_congr_right fun ho => ⟨fun h => lt_of_le_of_ne (hleft other ho) h, ne_of_lt⟩
    · exact and_congr_right fun ho => ⟨fun h => lt_of_le_of_ne (hright other ho) h.symm, fun h => h.ne'⟩
  rw [binWidth_eq, hapart, ← sideWidth_pos_iff hbin (leftNeighbour_count hcount),
    ← sideWidth_pos_iff hbin (rightNeighbour_count hcount), ← hsum hl hr]
  split_ifs
  · exact ⟨by positivity, mul_pos_iff_of_pos_right two_pos⟩
  · exact ⟨add_nonneg hl hr, Iff.rfl⟩

end Width

/-! ## The sum -/

omit [Field K] [LinearOrder K] [IsStrictOrderedRing K] in
/-- A loop whose rounds are all numbers. -/
theorem foldlM_eq_some {α β : Type} {f : β → α → Option β} {g : β → α → β} :
    ∀ {xs : List α} {b : β}, (∀ x ∈ xs, ∀ b, f b x = some (g b x)) →
      xs.foldlM f b = some (xs.foldl g b)
  | [], _, _ => rfl
  | x :: xs, b, h => by
    rw [List.foldlM_cons, h x (by simp) b]
    exact foldlM_eq_some fun y hy => h y (List.mem_cons_of_mem _ hy)

omit [Field K] [LinearOrder K] [IsStrictOrderedRing K] in
/-- In a loop that is a number, so is each round. -/
theorem foldlM_some_round {α β : Type} {f : β → α → Option β} :
    ∀ {xs : List α} {b c : β}, xs.foldlM f b = some c → ∀ x ∈ xs, ∃ b' c', f b' x = some c'
  | [], _, _, _, x, hx => absurd hx (by simp)
  | y :: xs, b, c, h, x, hx => by
    rw [List.foldlM_cons, Option.bind_eq_bind, Option.bind_eq_some_iff] at h
    obtain ⟨b', hy, hrest⟩ := h
    rcases List.mem_cons.1 hx with rfl | hx
    · exact ⟨b, b', hy⟩
    · exact foldlM_some_round hrest x hx

/-- A bin that is not empty has a count. -/
theorem count_pos_of_not_empty (h : isEmptyBin bin = false) : 0 < bin.count :=
  doubleEps_pos.trans (not_isEmptyBin_iff.1 h)

section Sum

variable {log : K → K} (hcount : ∀ bin ∈ hist, 0 ≤ bin.count) (htotal : 0 < hist.total)

include hcount htotal in
/-- A round for a bin that has a width. -/
theorem checkedRound_eq {p : Bin K × Nat}
    (hwidth : isEmptyBin p.1 = false → 0 < binWidth hist p.2 p.1) (h : K) :
    checkedRound log hist h p = some
      (if cmp doubleEps p.1.count 0 ≤ 0 then h
      else h - p.1.count * log (p.1.count / hist.total / binWidth hist p.2 p.1) / hist.total) := by
  unfold checkedRound
  split_ifs with hempty
  · rfl
  · have hbin : isEmptyBin p.1 = false := by simpa [isEmptyBin] using hempty
    have hcnt := count_pos_of_not_empty hbin
    have hw := hwidth hbin
    have hpos : 0 < p.1.count / hist.total / binWidth hist p.2 p.1 := by positivity
    rw [checkedWidth_eq hcount hcnt]
    simp only [divide, logarithm, Option.bind_eq_bind, Option.bind_some, if_neg htotal.ne', if_neg hw.ne',
      if_pos hpos]

include hcount in
/-- A round that is a number, for a bin that is not empty. -/
theorem binWidth_ne_zero {p : Bin K × Nat} {h h' : K} (hbin : isEmptyBin p.1 = false)
    (hr : checkedRound log hist h p = some h') : binWidth hist p.2 p.1 ≠ 0 := by
  have hempty : ¬ cmp doubleEps p.1.count 0 ≤ 0 := by simpa [isEmptyBin] using hbin
  intro hzero
  rw [checkedRound, if_neg hempty, checkedWidth_eq hcount (count_pos_of_not_empty hbin), hzero] at hr
  simp only [divide, if_pos, Option.bind_eq_bind, Option.bind_some, Option.bind_none, Option.bind_eq_some_iff,
    reduceCtorEq, exists_false, and_false] at hr

end Sum

end

namespace Statistics

variable {pf : Platform K} {config : StatisticsConfig} {st st' : Statistics K} {calls : List (Call K)}

/-- Every bin that is not empty has a neighbour with another center. -/
def BinsApart (hist : Histogram K) : Prop :=
  ∀ i bin, hist[i]? = some bin → isEmptyBin bin = false → Apart hist i bin

/-- Every bin that is not empty has a width. -/
def WidthsPositive (hist : Histogram K) : Prop :=
  ∀ i bin, hist[i]? = some bin → isEmptyBin bin = false → 0 < binWidth hist i bin

/-- The entropy of `st` is a number. -/
def EntropyIsNumber (log : K → K) (st : Statistics K) : Prop :=
  ∃ h, checkedEntropy log st.histogram = some h ∧ st.getEntropy log = st.get .entropy h

section

variable [IsStrictOrderedRing K] {log : K → K}

theorem widthsPositive_iff (hI : HistogramInv calls st) :
    WidthsPositive st.histogram ↔ BinsApart st.histogram := by
  have hpos : ∀ i bin, st.histogram[i]? = some bin → isEmptyBin bin = false →
      (0 < binWidth st.histogram i bin ↔ Apart st.histogram i bin) := fun i bin hi hbin =>
    (binWidth_pos_iff hI.wellFormed.sorted hI.wellFormed.count_nonneg hi (count_pos_of_not_empty hbin)).2
  exact forall₄_congr hpos

theorem entropyIsNumber_iff (hI : HistogramInv calls st) (hlen : 2 ≤ st.histogram.length)
    (htotal : doubleEps < st.histogram.total) :
    EntropyIsNumber log st ↔ WidthsPositive st.histogram := by
  have hcount := hI.wellFormed.count_nonneg
  have hlen' : ¬ st.histogram.length ≤ 1 := by omega
  have htotal' : ¬ cmp doubleEps st.histogram.total 0 ≤ 0 := by
    rwa [cmp_nonpos doubleEps_pos, zero_add, not_le]
  have hchecked : checkedEntropy log st.histogram =
      st.histogram.zipIdx.foldlM (checkedRound log st.histogram) 0 := by
    rw [checkedEntropy, if_neg hlen', if_neg htotal']
  have hmem : ∀ {bin : Bin K} {i : Nat}, (bin, i) ∈ st.histogram.zipIdx ↔ st.histogram[i]? = some bin :=
    List.mk_mem_zipIdx_iff_getElem?
  constructor
  · intro h i bin hi hbin
    obtain ⟨e, he, -⟩ := h
    rw [hchecked] at he
    obtain ⟨h, h', hround⟩ := foldlM_some_round he (bin, i) (hmem.2 hi)
    have hne : binWidth st.histogram i bin ≠ 0 := binWidth_ne_zero hcount hbin hround
    have hnonneg := (binWidth_pos_iff hI.wellFormed.sorted hcount hi (count_pos_of_not_empty hbin)).1
    exact lt_of_le_of_ne hnonneg hne.symm
  · intro h
    have hround : ∀ p ∈ st.histogram.zipIdx, ∀ e, checkedRound log st.histogram e p = some _ :=
      fun p hp => checkedRound_eq hcount (doubleEps_pos.trans htotal) (h p.2 p.1 (hmem.1 hp))
    refine ⟨_, hchecked.trans (foldlM_eq_some hround), ?_⟩
    simp only [getEntropy, if_neg hlen', if_neg htotal']

/-! ## Runs -/

/-- Bins with centers in order, no two of them equal. -/
def StrictlySorted (hist : Histogram K) : Prop := hist.Pairwise fun a b => a.center < b.center

omit [IsStrictOrderedRing K] in
theorem StrictlySorted.binsApart {hist : Histogram K} (hs : StrictlySorted hist)
    (hlen : 2 ≤ hist.length) : BinsApart hist := by
  intro i bin hi _
  have hpair := List.pairwise_iff_getElem.1 hs
  obtain ⟨hlt, rfl⟩ := List.getElem?_eq_some_iff.1 hi
  rcases Nat.eq_zero_or_pos i with rfl | hi0
  · have hright : 0 + 1 < hist.length := by omega
    exact ⟨hist[0 + 1], .inr (List.getElem?_eq_getElem hright), (hpair _ _ hlt hright (by omega)).ne'⟩
  · have hleft : leftNeighbour hist i = some hist[i - 1] := by
      rw [leftNeighbour, if_neg hi0.ne', List.getElem?_eq_getElem]
    exact ⟨_, .inl hleft, (hpair _ _ _ hlt (by omega)).ne⟩

omit [Field K] [IsStrictOrderedRing K] in
/-- A value that is no bin's center. -/
theorem StrictlySorted.insertIdx {hist : Histogram K} {new : Bin K} {k : Nat} (hs : StrictlySorted hist)
    (hk : InsertionPoint hist new k) (hnew : ∀ bin ∈ hist, bin.center ≠ new.center) :
    StrictlySorted (hist.insertIdx k new) := by
  rw [insertIdx_eq hk.le_length]
  refine pairwise_insert (by rwa [List.take_append_drop]) (fun b hb => ?_) (fun b hb => ?_)
  · exact lt_of_le_of_ne (hk.before b hb) (hnew b (List.mem_of_mem_take hb))
  · exact lt_of_le_of_ne (hk.after b hb) (hnew b (List.mem_of_mem_drop hb)).symm

/-- What a pair is merged into stays between what is around the pair. -/
theorem StrictlySorted.mergeClosest {hist merged : Histogram K} (hs : StrictlySorted hist)
    (hcount : ∀ bin ∈ hist, 0 ≤ bin.count) (hm : mergeClosest hist = .ok merged) :
    StrictlySorted merged := by
  have hsorted : SortedByCenter hist := hs.imp le_of_lt
  obtain ⟨before, l, r, after, bin, rfl, rfl, ⟨hle, hge⟩, -⟩ := mergeClosest_between hsorted hcount hm
  obtain ⟨-, hpair, hcross⟩ := List.pairwise_append.1 hs
  refine pairwise_insert (hs.sublist (by simp)) (fun b hb => ?_) (fun b hb => ?_)
  · exact (hcross b hb l (by simp)).trans_le hle
  · exact hge.trans_lt (List.rel_of_pairwise_cons hpair.of_cons hb)

theorem StrictlySorted.reduceHistogram {bins : Nat} {hist reduced : Histogram K} (hs : StrictlySorted hist)
    (hcount : ∀ bin ∈ hist, 0 ≤ bin.count) (hr : reduceHistogram bins hist = .ok reduced) :
    StrictlySorted reduced := by
  rcases reduceHistogram_ok.1 hr with ⟨-, rfl⟩ | ⟨-, pruned, hp, hcases⟩
  · exact hs
  obtain ⟨removed, hprunes⟩ := removeEmptyBins_ok hp
  have hpruned : StrictlySorted pruned := hs.sublist hprunes.sublist
  rcases hcases with ⟨-, rfl⟩ | ⟨-, hm⟩
  · exact hpruned
  · exact hpruned.mergeClosest (fun bin hb => hcount bin (hprunes.sublist.subset hb)) hm

/-- The value of the call is no center of a bin. -/
def NewCenter (st : Statistics K) : Call K → Prop
  | .update v _ => ∀ bin ∈ st.histogram, bin.center ≠ v
  | .updateTime _ => True

instance (st : Statistics K) : ∀ c, Decidable (NewCenter st c)
  | .update v _ => inferInstanceAs (Decidable (∀ bin ∈ st.histogram, bin.center ≠ v))
  | .updateTime _ => inferInstanceAs (Decidable True)

theorem step_strictlySorted (hI : HistogramInv calls st) (hs : StrictlySorted st.histogram) {c : Call K}
    (hc : NewCenter st c) (h : step pf st c = .ok st') : StrictlySorted st'.histogram := by
  have hfaded : ∀ (t : Int) {hist : Histogram K}, StrictlySorted hist →
      StrictlySorted (hist.map (st.fadedBin pf t)) := fun t hist hh => List.pairwise_map.2 hh
  cases c with
  | updateTime t =>
    obtain rfl := Except.ok.inj h
    rw [updateTime_histogram]
    split_ifs
    · exact hfaded t hs
    · exact hs
  | update v t =>
    obtain ⟨hist, hhist, rfl⟩ := update_ok.1 h
    rcases update_histogram_cases.1 hhist with ⟨-, rfl⟩ | ⟨-, hbins, hreduced⟩
    · exact hs
    · have hpoint := pf.lowerBound_correct _ ⟨v, 1, t⟩ hI.wellFormed.sorted
      have hins : StrictlySorted (st.insertAndShift pf v t) := by
        rw [insertAndShift_eq hbins]
        exact hfaded t (hs.insertIdx hpoint hc)
      exact hins.reduceHistogram (hI.insertAndShift_count_nonneg hbins v t) hreduced

theorem RunsTo.strictlySorted (h : RunsTo pf config calls st)
    (hnew : Throughout (step pf) (initial config) calls fun _ => NewCenter) :
    StrictlySorted st.histogram := by
  have hstep : ∀ pre (st : Statistics K) c st',
      HistogramInv pre st ∧ StrictlySorted st.histogram → NewCenter st c → step pf st c = .ok st' →
        HistogramInv (pre ++ [c]) st' ∧ StrictlySorted st'.histogram := by
    intro pre st c st' hI hc hs
    exact ⟨step_histogramInv hI.1 hs, step_strictlySorted hI.1 hI.2 hc hs⟩
  have hstart : StrictlySorted (initial config : Statistics K).histogram := List.Pairwise.nil
  exact (run_inv_throughout hstep ⟨histogramInv_initial config, hstart⟩ h hnew).2

end

end Statistics

end Handystats
