/-
The histogram's representation invariant.

`Prunes` says once what `remove_empty_bins` does and `mergeClosest_ok` what
the merge does; from these `step_histogram` gives what one call keeps, and
`histogram_invariant` what every run does. The centers are kept in order by
any `lower_bound` that is right about them: fading never touches a center.
-/
import Mathlib.Data.List.InsertIdx
import Handystats.IntervalStatistics

namespace Handystats

open Runs Weighting MathUtils

variable {K : Type} [Field K] [LinearOrder K]

/-! ## Pruning -/

/-- `left` is `hist` without the bins `removed`, which are empty. -/
structure Prunes (hist left removed : Histogram K) : Prop where
  sublist : left.Sublist hist
  perm : hist.Perm (left ++ removed)
  empty : ∀ bin ∈ removed, isEmptyBin bin = true

theorem Prunes.refl (hist : Histogram K) : Prunes hist hist [] :=
  ⟨List.Sublist.refl _, by simp, by simp⟩

theorem Prunes.trans {hist mid left r₁ r₂ : Histogram K} (h₁ : Prunes hist mid r₁)
    (h₂ : Prunes mid left r₂) : Prunes hist left (r₂ ++ r₁) := by
  refine ⟨h₂.sublist.trans h₁.sublist, ?_, fun bin hb => ?_⟩
  · rw [← List.append_assoc]
    exact h₁.perm.trans (h₂.perm.append_right r₁)
  · rcases List.mem_append.1 hb with hb | hb
    · exact h₂.empty bin hb
    · exact h₁.empty bin hb

theorem prunes_dropWhile (hist : Histogram K) :
    Prunes hist (hist.dropWhile isEmptyBin) (hist.takeWhile isEmptyBin) := by
  refine ⟨List.dropWhile_sublist _, ?_, fun bin hb => List.mem_takeWhile_imp hb⟩
  calc hist = hist.takeWhile isEmptyBin ++ hist.dropWhile isEmptyBin :=
        List.takeWhile_append_dropWhile.symm
    _ |>.Perm _ := List.perm_append_comm

theorem prunes_rdropWhile (hist : Histogram K) :
    Prunes hist (hist.rdropWhile isEmptyBin) (hist.rtakeWhile isEmptyBin) := by
  have h := prunes_dropWhile hist.reverse
  refine ⟨(List.rdropWhile_prefix _ _).sublist, ?_, fun bin hb => List.mem_rtakeWhile_imp hb⟩
  calc hist.Perm hist.reverse := (List.reverse_perm hist).symm
    _ |>.Perm _ := h.perm
    _ |>.Perm _ := (List.reverse_perm _).symm.append (List.reverse_perm _).symm

theorem prunes_eraseIdx {hist : Histogram K} {i : Nat} {bin : Bin K} (h : hist[i]? = some bin)
    (he : isEmptyBin bin = true) : Prunes hist (hist.eraseIdx i) [bin] := by
  obtain ⟨hi, rfl⟩ := List.getElem?_eq_some_iff.1 h
  refine ⟨List.eraseIdx_sublist hist i, ?_, by simpa using he⟩
  exact ((List.getElem_cons_eraseIdx_perm hi).symm).trans (List.perm_append_singleton _ _).symm

/-- The loop of `remove_empty_bins` erases empty bins. -/
theorem removeSurroundedBins_ok {hist left : Histogram K} {i : Nat}
    (h : removeSurroundedBins hist i = .ok left) : ∃ removed, Prunes hist left removed := by
  fun_induction removeSurroundedBins hist i
  case case2 ih => exact ih h
  case case4 ih => exact ih h
  case case6 ih => exact ih h
  case case7 histogram index _ bin hbin _ hempty _ _ _ _ _ _ ih =>
    obtain ⟨removed, hp⟩ := ih h
    exact ⟨_, (prunes_eraseIdx hbin (by simpa using hempty)).trans hp⟩
  case case8 =>
    simp only [Except.ok.injEq] at h
    subst h; exact ⟨[], Prunes.refl _⟩
  -- The remaining cases read an element that does not exist.
  all_goals cases h

theorem removeEmptyBins_ok {hist left : Histogram K} (h : removeEmptyBins hist = .ok left) :
    ∃ removed, Prunes hist left removed := by
  obtain ⟨removed, hp⟩ := removeSurroundedBins_ok h
  exact ⟨_, ((prunes_dropWhile hist).trans (prunes_rdropWhile _)).trans hp⟩

/-- No exception comes from the pruning. -/
theorem removeSurroundedBins_error {hist : Histogram K} {i : Nat} {f : Fault}
    (h : removeSurroundedBins hist i = .error f) : f = .undefinedBehaviour := by
  fun_induction removeSurroundedBins hist i
  case case2 ih => exact ih h
  case case4 ih => exact ih h
  case case6 ih => exact ih h
  case case7 ih => exact ih h
  case case8 => cases h
  all_goals exact (Except.error.inj h).symm

/-! ## Merging -/

omit [Field K] [LinearOrder K] in
/-- Two neighbours, where they stand. -/
theorem eq_append_of_getElem? {hist : Histogram K} {i : Nat} {left right : Bin K}
    (hl : hist[i]? = some left) (hr : hist[i + 1]? = some right) :
    ∃ before after, hist = before ++ left :: right :: after ∧ before.length = i := by
  obtain ⟨hi, rfl⟩ := List.getElem?_eq_some_iff.1 hl
  obtain ⟨hi', rfl⟩ := List.getElem?_eq_some_iff.1 hr
  refine ⟨hist.take i, hist.drop (i + 2), ?_, by simp; omega⟩
  rw [List.getElem_cons_drop, List.getElem_cons_drop, List.take_append_drop]

/-- The merge replaces two neighbours by one bin. -/
theorem mergeClosest_ok {hist merged : Histogram K} (h : mergeClosest hist = .ok merged) :
    ∃ before left right after bin, hist = before ++ left :: right :: after ∧
      before.length = bestMergeIndex hist ∧ mergedBin left right = .ok bin ∧
      merged = before ++ bin :: after := by
  simp only [mergeClosest, bind_eq_ok, elementAt_ok, Except.ok.injEq] at h
  obtain ⟨left, hl, right, hr, bin, hbin, rfl⟩ := h
  obtain ⟨before, after, hhist, hlen⟩ := eq_append_of_getElem? hl hr
  refine ⟨before, left, right, after, bin, hhist, hlen, hbin, ?_⟩
  rw [← hlen, hhist, List.set_append_right _ _ le_rfl, List.eraseIdx_append_of_length_le (by simp)]
  simp

omit [Field K] [LinearOrder K] in
theorem insertIdx_eq {hist : Histogram K} {new : Bin K} {k : Nat} (hk : k ≤ hist.length) :
    hist.insertIdx k new = hist.take k ++ new :: hist.drop k := by
  induction hist generalizing k with
  | nil =>
    obtain rfl : k = 0 := by simpa using hk
    rfl
  | cons bin hist ih =>
    cases k with
    | zero => rfl
    | succ k => simpa using ih (by simpa using hk)

omit [Field K] [LinearOrder K] in
/-- A bin between those before it and those after it. -/
theorem pairwise_insert {R : Bin K → Bin K → Prop} {before after : Histogram K} {new : Bin K}
    (h : (before ++ after).Pairwise R) (hb : ∀ b ∈ before, R b new) (ha : ∀ b ∈ after, R new b) :
    (before ++ new :: after).Pairwise R := by
  obtain ⟨h₁, h₂, h₃⟩ := List.pairwise_append.1 h
  refine List.pairwise_append.2 ⟨h₁, List.pairwise_cons.2 ⟨ha, h₂⟩, fun a hma b hmb => ?_⟩
  rcases List.mem_cons.1 hmb with rfl | hmb
  · exact hb a hma
  · exact h₃ a hma b hmb

/-- What `update_histogram` makes of a histogram that has one bin too many, at
most. -/
theorem reduceHistogram_ok {bins : Nat} {hist reduced : Histogram K} :
    Statistics.reduceHistogram bins hist = .ok reduced ↔
      (hist.length ≤ bins ∧ reduced = hist) ∨
      (bins < hist.length ∧ ∃ pruned, removeEmptyBins hist = .ok pruned ∧
        ((pruned.length ≤ bins ∧ reduced = pruned) ∨
          (bins < pruned.length ∧ mergeClosest pruned = .ok reduced))) := by
  unfold Statistics.reduceHistogram
  split_ifs with h
  · simp [h, eq_comm, not_lt.2 h]
  · simp only [bind_eq_ok, h, false_and, false_or, not_le.1 h, true_and]
    refine exists_congr fun pruned => and_congr_right fun _ => ?_
    split_ifs with h'
    · simp [h', eq_comm, not_lt.2 h']
    · simp [h', not_le.1 h']

theorem removeEmptyBins_length {hist left : Histogram K} (h : removeEmptyBins hist = .ok left) :
    left.length ≤ hist.length :=
  (removeEmptyBins_ok h).choose_spec.sublist.length_le

/-- One bin too many is reduced to the number of bins. -/
theorem reduceHistogram_length {bins : Nat} {hist reduced : Histogram K}
    (hlen : hist.length ≤ bins + 1) (h : Statistics.reduceHistogram bins hist = .ok reduced) :
    reduced.length ≤ bins := by
  rcases reduceHistogram_ok.1 h with ⟨h, rfl⟩ | ⟨-, pruned, hp, ⟨h, rfl⟩ | ⟨-, hm⟩⟩
  · exact h
  · exact h
  · obtain ⟨before, l, r, after, bin, rfl, -, -, rfl⟩ := mergeClosest_ok hm
    have := removeEmptyBins_length hp
    simp only [List.length_append, List.length_cons] at this ⊢
    omega

variable [IsStrictOrderedRing K]

theorem isEmptyBin_iff {bin : Bin K} : isEmptyBin bin = true ↔ bin.count ≤ doubleEps := by
  simp [isEmptyBin, cmp_nonpos doubleEps_pos]

theorem not_isEmptyBin_iff {bin : Bin K} : isEmptyBin bin = false ↔ doubleEps < bin.count := by
  rw [← Bool.not_eq_true, isEmptyBin_iff, not_le]

/-- Two empty bins are merged into one halfway between them. -/
theorem mergedBin_of_empty {left right : Bin K} (h : (isEmptyBin left && isEmptyBin right) = true) :
    mergedBin left right =
      .ok ⟨(left.center * 1 + right.center * 1) / (1 + 1), 0, timePointZero⟩ := by
  have hw : weightedAverage left.center 1 right.center 1 =
      .ok ((left.center * 1 + right.center * 1) / (1 + 1)) :=
    weightedAverage_of_pos (by unfold longDoubleEps; norm_num)
  simp only [isEmptyBin, Bool.and_eq_true, decide_eq_true_eq] at h
  rw [mergedBin, if_pos h, hw]
  rfl

/-- Of two bins that are not both empty, one count is above the tolerance, and so
is the sum: they are merged into one at their mean. -/
theorem mergedBin_of_not_empty {left right : Bin K} (hl : 0 ≤ left.count) (hr : 0 ≤ right.count)
    (h : ¬ (isEmptyBin left && isEmptyBin right) = true) :
    0 < left.count + right.count ∧ mergedBin left right = .ok
      ⟨(left.center * left.count + right.center * right.count) / (left.count + right.count),
        left.count + right.count, max left.timestamp right.timestamp⟩ := by
  have hsum : longDoubleEps < left.count + right.count := by
    have h2048 := doubleEps_eq (K := K)
    have hpos := longDoubleEps_pos (K := K)
    rw [Bool.and_eq_true, isEmptyBin_iff, isEmptyBin_iff, not_and_or, not_le, not_le] at h
    rcases h with h | h <;> linarith
  refine ⟨longDoubleEps_pos.trans hsum, ?_⟩
  simp only [isEmptyBin, Bool.and_eq_true, decide_eq_true_eq] at h
  rw [mergedBin, if_neg h, weightedAverage_of_pos hsum]
  rfl

/-- The bin a pair is merged into: it lies between the two and has their
counts together, unless both are empty. -/
theorem mergedBin_spec {left right : Bin K} (hl : 0 ≤ left.count) (hr : 0 ≤ right.count) :
    ∃ bin, mergedBin left right = .ok bin ∧
      (left.center ≤ right.center → left.center ≤ bin.center ∧ bin.center ≤ right.center) ∧
      bin.count = (if isEmptyBin left && isEmptyBin right then 0 else left.count + right.count) ∧
      (bin.timestamp = timePointZero ∨ bin.timestamp = max left.timestamp right.timestamp) := by
  by_cases hempty : isEmptyBin left && isEmptyBin right
  · refine ⟨_, mergedBin_of_empty hempty, fun hc => ⟨?_, ?_⟩, by rw [if_pos hempty], .inl rfl⟩
    · exact le_weighted (by norm_num) (by norm_num) hc
    · exact weighted_le (by norm_num) (by norm_num) hc
  · obtain ⟨hpos, hbin⟩ := mergedBin_of_not_empty hl hr hempty
    refine ⟨_, hbin, fun hc => ⟨?_, ?_⟩, by rw [if_neg hempty], .inr rfl⟩
    · exact le_weighted hr hpos hc
    · exact weighted_le hl hpos hc

/-- The merge of a sorted histogram puts a bin between two neighbours in their
place. -/
theorem mergeClosest_between {hist merged : Histogram K} (hs : SortedByCenter hist)
    (hcount : ∀ bin ∈ hist, 0 ≤ bin.count) (hm : mergeClosest hist = .ok merged) :
    ∃ before left right after bin, hist = before ++ left :: right :: after ∧
      merged = before ++ bin :: after ∧ (left.center ≤ bin.center ∧ bin.center ≤ right.center) ∧
      bin.count = (if isEmptyBin left && isEmptyBin right then 0 else left.count + right.count) ∧
      (bin.timestamp = timePointZero ∨ bin.timestamp = max left.timestamp right.timestamp) := by
  obtain ⟨before, l, r, after, bin, rfl, -, hbin, rfl⟩ := mergeClosest_ok hm
  obtain ⟨-, hpair, -⟩ := List.pairwise_append.1 hs
  obtain ⟨bin', hbin', hcenter, hspec⟩ := mergedBin_spec (hcount l (by simp)) (hcount r (by simp))
  obtain rfl : bin = bin' := Except.ok.inj (hbin.symm.trans hbin')
  exact ⟨before, l, r, after, bin, rfl, rfl, hcenter (List.rel_of_pairwise_cons hpair (by simp)), hspec⟩

/-- Merging keeps the order. -/
theorem SortedByCenter.mergeClosest {hist merged : Histogram K} (hs : SortedByCenter hist)
    (hcount : ∀ bin ∈ hist, 0 ≤ bin.count) (hm : mergeClosest hist = .ok merged) :
    SortedByCenter merged := by
  obtain ⟨before, l, r, after, bin, rfl, rfl, ⟨hle, hge⟩, -⟩ := mergeClosest_between hs hcount hm
  obtain ⟨-, hpair, hcross⟩ := List.pairwise_append.1 hs
  refine pairwise_insert (hs.sublist (by simp)) (fun b hb => ?_) (fun b hb => ?_)
  · exact (hcross b hb l (by simp)).trans hle
  · exact hge.trans (List.rel_of_pairwise_cons hpair.of_cons hb)

/-! ## The scan for the closest pair -/

/-- One step of the scan. The best is replaced by a pair that is closer by more
than the tolerance. -/
theorem bestMerge_step (best : Option (Nat × K)) (index : Nat) (left right : Bin K) (rest : Histogram K) :
    ∃ q, bestMerge best index (left :: right :: rest) = bestMerge (some q) (index + 1) (right :: rest) ∧
      (∀ q', best = some q' → q.2 ≤ q'.2) ∧ q.2 ≤ binMergeCriteria left right + doubleEps ∧
      (best = some q ∨ q = (index, binMergeCriteria left right)) := by
  have hpos := doubleEps_pos (K := K)
  cases best with
  | none => exact ⟨(index, binMergeCriteria left right), rfl, by simp, by simpa using hpos.le, .inr rfl⟩
  | some q =>
    by_cases hless : cmp doubleEps (binMergeCriteria left right) q.2 < 0
    · refine ⟨(index, binMergeCriteria left right), ?_, fun q' hq' => ?_, by simpa using hpos.le, .inr rfl⟩
      · rw [bestMerge, if_pos hless]
      · obtain rfl := Option.some.inj hq'
        rw [cmp_neg] at hless
        exact (le_add_of_nonneg_right hpos.le).trans hless.le
    · refine ⟨q, ?_, fun q' hq' => ?_, ?_, .inl rfl⟩
      · rw [bestMerge, if_neg hless]
      · obtain rfl := Option.some.inj hq'
        exact le_rfl
      · rwa [cmp_neg, not_lt] at hless

theorem bestMerge_returns :
    ∀ {hist : Histogram K} {best : Option (Nat × K)} {index : Nat}, best.isSome = true ∨ 2 ≤ hist.length →
      ∃ p, bestMerge best index hist = some p
  | [], _, _, h => Option.isSome_iff_exists.1 (h.resolve_right (by simp))
  | [_], _, _, h => Option.isSome_iff_exists.1 (h.resolve_right (by simp))
  | left :: right :: rest, best, index, _ => by
    obtain ⟨q, hq, -⟩ := bestMerge_step best index left right rest
    rw [hq]
    exact bestMerge_returns (.inl rfl)

/-- What the scan ends with is a pair's, or what it started with, and is not above
that; no pair is below it by more than the tolerance. -/
theorem bestMerge_least :
    ∀ {hist : Histogram K} {best : Option (Nat × K)} {index : Nat} {p : Nat × K},
      bestMerge best index hist = some p →
      (∀ q, best = some q → p.2 ≤ q.2) ∧
      (∀ i l r, hist[i]? = some l → hist[i + 1]? = some r → p.2 ≤ binMergeCriteria l r + doubleEps) ∧
      (best = some p ∨ ∃ i l r, hist[i]? = some l ∧ hist[i + 1]? = some r ∧
        p = (index + i, binMergeCriteria l r))
  | [], best, index, p, h => by
    obtain rfl : best = some p := h
    simp
  | [_], best, index, p, h => by
    obtain rfl : best = some p := h
    simp
  | left :: right :: rest, best, index, p, h => by
    obtain ⟨q, hq, hle, hhere, hq'⟩ := bestMerge_step best index left right rest
    rw [hq] at h
    obtain ⟨hbest, hpairs, hwhere⟩ := bestMerge_least h
    have hpq := hbest q rfl
    refine ⟨fun q' h' => hpq.trans (hle q' h'), fun i l r hl hr => ?_, ?_⟩
    · cases i with
      | zero =>
        obtain rfl := Option.some.inj hl
        obtain rfl := Option.some.inj hr
        exact hpq.trans hhere
      | succ i => exact hpairs i l r hl hr
    · rcases hwhere with h' | ⟨i, l, r, hl, hr, rfl⟩
      · obtain rfl := Option.some.inj h'
        rcases hq' with hq' | rfl
        · exact .inl hq'
        · exact .inr ⟨0, left, right, rfl, rfl, rfl⟩
      · exact .inr ⟨i + 1, l, r, hl, hr, by rw [Nat.add_right_comm, Nat.add_assoc]⟩

/-- The scan of two bins or more finds a pair, and none is closer by more than the
tolerance. -/
theorem bestMergeIndex_least {hist : Histogram K} (hlen : 2 ≤ hist.length) :
    ∃ left right, hist[bestMergeIndex hist]? = some left ∧ hist[bestMergeIndex hist + 1]? = some right ∧
      ∀ i l r, hist[i]? = some l → hist[i + 1]? = some r →
        binMergeCriteria left right ≤ binMergeCriteria l r + doubleEps := by
  obtain ⟨p, hp⟩ : ∃ p, bestMerge none 0 hist = some p := bestMerge_returns (.inr hlen)
  obtain ⟨-, hleast, hwhere⟩ := bestMerge_least hp
  obtain ⟨i, l, r, hl, hr, rfl⟩ := hwhere.resolve_left (by simp)
  have hindex : bestMergeIndex hist = i := by simp [bestMergeIndex, hp]
  rw [hindex]
  exact ⟨l, r, hl, hr, hleast⟩

/-! ## The invariant -/

/-- Bins that are in order at the time `T`, of the values `vs`. -/
structure WellFormed (vs : List K) (T : Int) (hist : Histogram K) : Prop where
  sorted : SortedByCenter hist
  count_nonneg : ∀ bin ∈ hist, 0 ≤ bin.count
  stamped : ∀ bin ∈ hist, bin.timestamp ≤ T
  between : ∀ bin ∈ hist, Between vs bin.center

namespace WellFormed

variable {vs us : List K} {T T' : Int} {hist left : Histogram K} {new : Bin K}

omit [IsStrictOrderedRing K] in
theorem nil : WellFormed vs T [] := ⟨List.Pairwise.nil, by simp, by simp, by simp⟩

omit [IsStrictOrderedRing K] in
theorem sublist (h : WellFormed vs T hist) (hs : left.Sublist hist) : WellFormed vs T left :=
  ⟨h.sorted.sublist hs, fun b hb => h.count_nonneg b (hs.subset hb),
    fun b hb => h.stamped b (hs.subset hb), fun b hb => h.between b (hs.subset hb)⟩

omit [IsStrictOrderedRing K] in
/-- Later, and with more values. -/
theorem mono (h : WellFormed vs T hist) (hT : T ≤ T') (hsub : ∀ v ∈ vs, v ∈ us) :
    WellFormed us T' hist :=
  ⟨h.sorted, h.count_nonneg, fun b hb => (h.stamped b hb).trans hT,
    fun b hb => (h.between b hb).mono hsub⟩

omit [IsStrictOrderedRing K] in
/-- A bin that is put in its place. -/
theorem insert {before after : Histogram K} (h : WellFormed vs T (before ++ after))
    (hsorted : SortedByCenter (before ++ new :: after))
    (hcount : 0 ≤ new.count) (hT : new.timestamp ≤ T) (hbetween : Between vs new.center) :
    WellFormed vs T (before ++ new :: after) := by
  obtain ⟨-, hc, ht, hbw⟩ := h
  have hall : ∀ {P : Bin K → Prop}, P new → (∀ b ∈ before ++ after, P b) →
      ∀ b ∈ before ++ new :: after, P b := by
    intro P hnew hrest b hmem
    rcases List.mem_append.1 hmem with hmem | hmem
    · exact hrest b (List.mem_append_left _ hmem)
    · rcases List.mem_cons.1 hmem with rfl | hmem
      · exact hnew
      · exact hrest b (List.mem_append_right _ hmem)
  exact ⟨hsorted, hall hcount hc, hall hT ht, hall hbetween hbw⟩

omit [IsStrictOrderedRing K] in
theorem insertIdx {k : Nat} (h : WellFormed vs T hist) (hk : InsertionPoint hist new k)
    (hcount : 0 ≤ new.count) (hT : new.timestamp ≤ T) (hbetween : Between vs new.center) :
    WellFormed vs T (hist.insertIdx k new) := by
  rw [insertIdx_eq hk.le_length]
  rw [← List.take_append_drop k hist] at h
  exact insert h (pairwise_insert h.sorted hk.before hk.after) hcount hT hbetween

/-- Neighbours merged. -/
theorem mergeClosest (h : WellFormed vs T hist) (hT : 0 ≤ T)
    (hm : mergeClosest hist = .ok left) : WellFormed vs T left := by
  have hsorted := h.sorted.mergeClosest h.count_nonneg hm
  obtain ⟨before, l, r, after, bin, rfl, rfl, ⟨hle, hge⟩, hcount, hts⟩ :=
    mergeClosest_between h.sorted h.count_nonneg hm
  have hmem : l ∈ before ++ l :: r :: after ∧ r ∈ before ++ l :: r :: after := by simp
  obtain ⟨hml, hmr⟩ := hmem
  refine insert (h.sublist (by simp)) hsorted ?_ ?_ ?_
  · rw [hcount]
    split_ifs
    · exact le_rfl
    · exact add_nonneg (h.count_nonneg l hml) (h.count_nonneg r hmr)
  · rcases hts with hts | hts <;> rw [hts]
    · exact hT
    · exact max_le (h.stamped l hml) (h.stamped r hmr)
  · exact (h.between l hml).of_le (h.between r hmr) hle hge

theorem reduceHistogram {bins : Nat} (h : WellFormed vs T hist) (hT : 0 ≤ T)
    (hr : Statistics.reduceHistogram bins hist = .ok left) : WellFormed vs T left := by
  rcases reduceHistogram_ok.1 hr with ⟨-, rfl⟩ | ⟨-, pruned, hp, ⟨-, rfl⟩ | ⟨-, hm⟩⟩
  · exact h
  · exact h.sublist (removeEmptyBins_ok hp).choose_spec.sublist
  · exact (h.sublist (removeEmptyBins_ok hp).choose_spec.sublist).mergeClosest hT hm

end WellFormed

namespace Statistics

variable {pf : Platform K} {config : StatisticsConfig} {st st' : Statistics K}

/-- The histogram of an object that the calls have led to. -/
structure HistogramInv (calls : List (Call K)) (st : Statistics K) : Prop where
  timestamp_nonneg : 0 ≤ st.timestamp
  length_le : st.histogram.length ≤ st.config.histogramBins
  wellFormed : WellFormed (Call.values calls) st.timestamp st.histogram

/-- Fading keeps a histogram in order. -/
theorem wellFormed_faded {vs : List K} {T : Int} {hist : Histogram K} (h : WellFormed vs T hist)
    (t : Int) : WellFormed vs T (hist.map (st.fadedBin pf t)) := by
  obtain ⟨hs, hc, ht, hb⟩ := h
  refine ⟨?_, ?_, ?_, ?_⟩
  · exact List.pairwise_map.2 hs
  all_goals
    intro b hmem
    obtain ⟨a, ha, rfl⟩ := List.mem_map.1 hmem
  · exact mul_nonneg (hc a ha) (kept_nonneg _ _ _ _)
  · exact ht a ha
  · exact hb a ha

omit [IsStrictOrderedRing K] in
/-- `update` moves the time on where there is a histogram. -/
theorem updated_timestamp_ge (pf : Platform K) (st : Statistics K) (v : K) (t : Int) (hist : Histogram K) :
    st.timestamp ≤ (st.updated pf v t hist).timestamp ∧
      (st.computed .histogram = true → t ≤ (st.updated pf v t hist).timestamp) := by
  refine ⟨?_, fun h => ?_⟩
  · simp only [updated]
    split_ifs <;> simp
  · have : st.computed .timestamp = true := StatisticsConfig.computed_timestamp h (by simp)
    simp [updated, this]

/-- One call keeps the histogram in order. -/
theorem step_histogramInv {calls : List (Call K)} (hI : HistogramInv calls st) {c : Call K}
    (h : step pf st c = .ok st') : HistogramInv (calls ++ [c]) st' := by
  obtain ⟨hT, hlen, hw⟩ := hI
  cases c with
  | updateTime t =>
    simp only [step, Except.ok.injEq] at h
    subst h
    have hT' : st.timestamp ≤ (st.updateTime pf t).timestamp := by
      rw [updateTime_timestamp]; split_ifs <;> simp
    rw [← Call.values_concat_updateTime calls t] at hw
    refine ⟨hT.trans hT', ?_, ?_⟩ <;> rw [updateTime_histogram]
    · split_ifs <;> simpa using hlen
    · split_ifs
      · exact (wellFormed_faded hw t).mono hT' fun _ => id
      · exact hw.mono hT' fun _ => id
  | update v t =>
    obtain ⟨hist, hhist, rfl⟩ := update_ok.1 h
    obtain ⟨hT', ht⟩ := updated_timestamp_ge pf st v t hist
    have hw' : WellFormed (Call.values (calls ++ [.update v t]))
        (st.updated pf v t hist).timestamp st.histogram :=
      hw.mono hT' (by simp +contextual)
    rcases update_histogram_cases.1 hhist with ⟨-, rfl⟩ | ⟨hc, hbins, hreduced⟩
    · exact ⟨hT.trans hT', hlen, hw'⟩
    · rw [insertAndShift_eq hbins] at hreduced
      refine ⟨hT.trans hT', reduceHistogram_length ?_ hreduced,
        .reduceHistogram ?_ (hT.trans hT') hreduced⟩
      · change _ ≤ st.config.histogramBins + 1
        rw [List.length_map, List.length_insertIdx]
        split_ifs <;> omega
      · refine wellFormed_faded (hw'.insertIdx ?_ zero_le_one (ht hc) (.of_mem (by simp))) t
        exact pf.lowerBound_correct _ _ hw.sorted

/-- No count is negative before the histogram is reduced. -/
theorem HistogramInv.insertAndShift_count_nonneg {calls : List (Call K)} (h : HistogramInv calls st)
    (hbins : st.config.histogramBins ≠ 0) (v : K) (t : Int) :
    ∀ bin ∈ st.insertAndShift pf v t, 0 ≤ bin.count := by
  intro bin hb
  rw [insertAndShift_eq hbins] at hb
  obtain ⟨b, hmem, rfl⟩ := List.mem_map.1 hb
  refine mul_nonneg ?_ (kept_nonneg _ _ _ _)
  have hpoint := pf.lowerBound_correct _ ⟨v, 1, t⟩ h.wellFormed.sorted
  rcases (List.mem_insertIdx hpoint.le_length).1 hmem with rfl | hmem
  · exact zero_le_one
  · exact h.wellFormed.count_nonneg b hmem

omit [IsStrictOrderedRing K] in
theorem histogramInv_initial (config : StatisticsConfig) :
    HistogramInv [] (initial config : Statistics K) :=
  ⟨le_rfl, by simp [initial], WellFormed.nil⟩

theorem RunsTo.histogramInv {calls : List (Call K)} (h : RunsTo pf config calls st) :
    HistogramInv calls st := by
  have hstep : ∀ pre (st : Statistics K) c st', HistogramInv pre st → step pf st c = .ok st' →
      HistogramInv (pre ++ [c]) st' := fun _ _ _ _ hI => step_histogramInv hI
  exact run_inv hstep (histogramInv_initial config) h

/-- **The histogram's representation invariant.** After every run: at most
`histogram_bins` bins, centers in order, no negative count, no stamp after
`m_timestamp`, and every center between the smallest and the largest value
passed to `update`. -/
theorem histogram_invariant {calls : List (Call K)} (h : RunsTo pf config calls st) :
    st.histogram.length ≤ config.histogramBins ∧
    SortedByCenter st.histogram ∧
    (∀ bin ∈ st.histogram, 0 ≤ bin.count) ∧
    (∀ bin ∈ st.histogram, bin.timestamp ≤ st.timestamp) ∧
    ∀ bin ∈ st.histogram, Between (Call.values calls) bin.center := by
  obtain ⟨-, hlen, hs, hc, ht, hb⟩ := h.histogramInv
  rw [h.reachable.config_eq] at hlen
  exact ⟨hlen, hs, hc, ht, hb⟩

theorem histogram_invariant_sample :
    ∃ st : Statistics ℚ, RunsTo (.inUnit .nsec) (sampleConfig 2 Tag.histogram.bit)
        [.update 3 0, .update 5 400, .update 4 (-100), .updateTime 900, .update 7 1500] st ∧
      st.histogram.length ≤ 2 ∧ SortedByCenter st.histogram := by
  obtain ⟨st, h⟩ := exists_ok_of_toBool (x := run (step (.inUnit .nsec))
    (initial (sampleConfig 2 Tag.histogram.bit))
    [.update (3 : ℚ) 0, .update 5 400, .update 4 (-100), .updateTime 900, .update 7 1500])
    (by decide +kernel)
  exact ⟨st, h, (histogram_invariant h).1, (histogram_invariant h).2.1⟩

end Statistics

end Handystats
