/-
The statistics of the whole data set: `min`, `max`, `sum`, `count`, `avg` and
`value` of all the values passed since a reset.

`reset` stores a sentinel in `m_min` and in `m_max`, and both are then updated
as if the sentinel were one of the values (`Accumulated`). The one of `m_min`
is the largest `double`. The one of `m_max` is `numeric_limits<double>::min()`,
which is positive: a data set that stays below it has the wrong maximum.
-/
import Mathlib.Order.Bounds.Basic
import Handystats.IntervalStatistics

namespace Handystats.Statistics

open Runs

/-! ## A bound that starts from a sentinel -/

section Sentinel

variable {α : Type} [PartialOrder α] {S : Set α} {sentinel m : α}

theorem isLeast_insert_iff (h : IsLeast (insert sentinel S) m) :
    IsLeast S m ↔ ∃ v ∈ S, v ≤ sentinel := by
  obtain ⟨hmem, hle⟩ := h
  constructor
  · intro hm
    exact ⟨m, hm.1, hle (Set.mem_insert _ _)⟩
  · intro ⟨v, hv, hvs⟩
    have hS : m ∈ S := by
      cases hmem with
      | inl hs => rwa [le_antisymm (hle (Set.mem_insert_of_mem _ hv)) (hs ▸ hvs)]
      | inr hS => exact hS
    exact ⟨hS, fun w hw => hle (Set.mem_insert_of_mem _ hw)⟩

theorem isGreatest_insert_iff (h : IsGreatest (insert sentinel S) m) :
    IsGreatest S m ↔ ∃ v ∈ S, sentinel ≤ v := by
  obtain ⟨hmem, hle⟩ := h
  constructor
  · intro hm
    exact ⟨m, hm.1, hle (Set.mem_insert _ _)⟩
  · intro ⟨v, hv, hvs⟩
    have hS : m ∈ S := by
      cases hmem with
      | inl hs => rwa [le_antisymm (hs ▸ hvs) (hle (Set.mem_insert_of_mem _ hv))]
      | inr hS => exact hS
    exact ⟨hS, fun w hw => hle (Set.mem_insert_of_mem _ hw)⟩

end Sentinel

/-! ## What the fields accumulate -/

variable {K : Type}

/-- The values passed to `update`, as a set. -/
def dataset (calls : List (Call K)) : Set K := {v | v ∈ Call.values calls}

theorem dataset_concat_update (calls : List (Call K)) (v : K) (t : Int) :
    dataset (calls ++ [.update v t]) = insert v (dataset calls) := by
  ext w
  simp [dataset, or_comm]

theorem dataset_concat_updateTime (calls : List (Call K)) (t : Int) :
    dataset (calls ++ [.updateTime t]) = dataset calls := by
  simp [dataset]

variable [Field K] [LinearOrder K]
variable {pf : Platform K} {config : StatisticsConfig} {st st' : Statistics K} {calls : List (Call K)}

/-- The fields that are computed, after the calls. -/
structure Accumulated (calls : List (Call K)) (st : Statistics K) : Prop where
  least : st.computed .min = true → IsLeast (insert doubleMax (dataset calls)) st.minValue
  greatest : st.computed .max = true → IsGreatest (insert doubleMin (dataset calls)) st.maxValue
  sum : st.computed .sum = true → st.sum = (Call.values calls).sum
  count : st.computed .count = true → st.count = (Call.values calls).length
  value : st.computed .value = true → st.value = (Call.values calls).getLastD 0

theorem accumulated_initial (config : StatisticsConfig) :
    Accumulated [] (initial config : Statistics K) := by
  constructor
  · intro _; simp [initial, dataset, Call.values]
  · intro _; simp [initial, dataset, Call.values]
  · intro _; simp [initial, Call.values]
  · intro _; simp [initial, Call.values]
  · intro _; simp [initial, Call.values]

/-- What `update` adds to each field. -/
theorem Accumulated.updated (h : Accumulated calls st) (v : K) (t : Int) (hist : Histogram K) :
    Accumulated (calls ++ [.update v t]) (st.updated pf v t hist) := by
  constructor
  · intro hc
    change st.computed .min = true at hc
    have hmin : (st.updated pf v t hist).minValue = min v st.minValue := by
      rw [min_comm]
      exact if_pos hc
    rw [hmin, dataset_concat_update, Set.insert_comm]
    exact (h.least hc).insert v
  · intro hc
    change st.computed .max = true at hc
    have hmax : (st.updated pf v t hist).maxValue = max v st.maxValue := by
      rw [max_comm]
      exact if_pos hc
    rw [hmax, dataset_concat_update, Set.insert_comm]
    exact (h.greatest hc).insert v
  · intro hc
    change st.computed .sum = true at hc
    have hsum : (st.updated pf v t hist).sum = st.sum + v := if_pos hc
    rw [hsum, h.sum hc, Call.values_concat_update, List.sum_append, List.sum_singleton]
  · intro hc
    change st.computed .count = true at hc
    have hcount : (st.updated pf v t hist).count = st.count + 1 := if_pos hc
    rw [hcount, h.count hc, Call.values_concat_update, List.length_append, List.length_singleton]
  · intro hc
    change st.computed .value = true at hc
    have hvalue : (st.updated pf v t hist).value = v := if_pos hc
    rw [hvalue, Call.values_concat_update, List.getLastD_concat]

theorem Accumulated.updateTime (h : Accumulated calls st) (t : Int) :
    Accumulated (calls ++ [.updateTime t]) (st.updateTime pf t) := by
  rw [updateTime_eq]
  refine ⟨?_, ?_, ?_, ?_, ?_⟩
  · rw [dataset_concat_updateTime]; exact h.least
  · rw [dataset_concat_updateTime]; exact h.greatest
  · rw [Call.values_concat_updateTime]; exact h.sum
  · rw [Call.values_concat_updateTime]; exact h.count
  · rw [Call.values_concat_updateTime]; exact h.value

theorem step_accumulated (h : Accumulated calls st) {c : Call K} (hs : step pf st c = .ok st') :
    Accumulated (calls ++ [c]) st' := by
  cases c with
  | update v t =>
    obtain ⟨hist, -, rfl⟩ := update_ok.1 hs
    exact h.updated v t hist
  | updateTime t =>
    simp only [step, Except.ok.injEq] at hs
    subst hs
    exact h.updateTime t

theorem RunsTo.accumulated (h : RunsTo pf config calls st) : Accumulated calls st :=
  run_inv (I := Accumulated) (fun _ _ _ _ hI hs => step_accumulated hI hs) (accumulated_initial config) h

/-! ## What is answered -/

/-- Each enabled statistic is what its name says of the values `vs`. -/
structure WholeDataset (st : Statistics K) (vs : List K) : Prop where
  min : st.config.enabled .min = true → ∃ m, st.getMin = .ok m ∧ IsLeast {v | v ∈ vs} m
  max : st.config.enabled .max = true → ∃ m, st.getMax = .ok m ∧ IsGreatest {v | v ∈ vs} m
  sum : st.config.enabled .sum = true → st.getSum = .ok vs.sum
  count : st.config.enabled .count = true → st.getCount = .ok vs.length
  avg : st.config.enabled .avg = true → st.getAvg = .ok (vs.sum / vs.length)
  value : st.config.enabled .value = true → ∃ v, st.getValue = .ok v ∧ vs.getLast? = some v

theorem getAvg_of_accumulated (h : Accumulated calls st) (hne : Call.values calls ≠ [])
    (havg : st.config.enabled .avg = true) :
    st.getAvg = .ok ((Call.values calls).sum / (Call.values calls).length) := by
  have hpos := List.length_pos_iff.2 hne
  rw [getAvg, get_of_computed (by simp [computed, havg]), h.sum (by simp [computed, havg]),
    h.count (by simp [computed, havg]), if_neg (by omega)]

/-- **The statistics of the whole data set are those of the values passed**
if, and only if, some value is not above the sentinel of `m_min` and some
value is not below that of `m_max`, where these are asked for. -/
theorem whole_dataset_iff (h : RunsTo pf config calls st) (hne : Call.values calls ≠ []) :
    WholeDataset st (Call.values calls) ↔
      (config.enabled .min = true → ∃ v ∈ Call.values calls, v ≤ doubleMax) ∧
        (config.enabled .max = true → ∃ v ∈ Call.values calls, doubleMin ≤ v) := by
  have hacc := h.accumulated
  have hcfg := h.reachable.config_eq
  constructor
  · intro hw
    refine ⟨fun hmin => ?_, fun hmax => ?_⟩
    · obtain ⟨m, hm, hleast⟩ := hw.min (by rw [hcfg, hmin])
      rw [← get_ok hm] at hleast
      exact (isLeast_insert_iff (hacc.least (by simp [computed, hcfg, hmin]))).1 hleast
    · obtain ⟨m, hm, hgreatest⟩ := hw.max (by rw [hcfg, hmax])
      rw [← get_ok hm] at hgreatest
      exact (isGreatest_insert_iff (hacc.greatest (by simp [computed, hcfg, hmax]))).1 hgreatest
  · intro hex
    obtain ⟨hmin, hmax⟩ := hex
    refine ⟨fun ht => ?_, fun ht => ?_, fun ht => ?_, fun ht => ?_, fun ht => ?_, fun ht => ?_⟩
    · have hc : st.computed .min = true := by simp [computed, ht]
      exact ⟨_, get_of_computed hc _, (isLeast_insert_iff (hacc.least hc)).2 (hmin (by rwa [hcfg] at ht))⟩
    · have hc : st.computed .max = true := by simp [computed, ht]
      exact ⟨_, get_of_computed hc _,
        (isGreatest_insert_iff (hacc.greatest hc)).2 (hmax (by rwa [hcfg] at ht))⟩
    · have hc : st.computed .sum = true := by simp [computed, ht]
      rw [getSum, get_of_computed hc, hacc.sum hc]
    · have hc : st.computed .count = true := by simp [computed, ht]
      rw [getCount, get_of_computed hc, hacc.count hc]
    · exact getAvg_of_accumulated hacc hne ht
    · have hc : st.computed .value = true := by simp [computed, ht]
      refine ⟨_, get_of_computed hc _, ?_⟩
      rw [hacc.value hc, List.getLastD_eq_getLast?, List.getLast?_eq_some_getLast hne, Option.getD_some]

theorem whole_dataset_sample :
    ∃ st : Statistics ℚ,
      RunsTo (.inUnit .nsec) (sampleConfig 0 (Tag.min.bit ||| Tag.max.bit ||| Tag.avg.bit))
        [.update (-5) 400, .updateTime 900, .update 7 500] st ∧
      WholeDataset st [-5, 7] := by
  obtain ⟨st, h⟩ := exists_runsTo (K := ℚ) (.inUnit .nsec)
    (show (sampleConfig 0 (Tag.min.bit ||| Tag.max.bit ||| Tag.avg.bit)).computed .histogram = false by
      decide +kernel)
    [.update (-5) 400, .updateTime 900, .update 7 500]
  refine ⟨st, h, (whole_dataset_iff h (by decide)).2
    ⟨fun _ => ⟨-5, by decide, ?_⟩, fun _ => ⟨7, by decide, ?_⟩⟩⟩
  · exact le_trans (by norm_num) (show (0 : ℚ) ≤ doubleMax by unfold doubleMax; positivity)
  · have hmin : (doubleMin : ℚ) ≤ 1 := div_le_one_of_le₀ (one_le_pow₀ one_le_two) (by positivity)
    exact hmin.trans (by norm_num)

/-- One value, -1: the maximum is the sentinel. -/
theorem negative_dataset_max :
    ∃ st : Statistics ℚ,
      RunsTo (.inUnit .nsec) (sampleConfig 0 Tag.max.bit) [.update (-1) 0] st ∧
      st.getMax = .ok doubleMin ∧ ¬ WholeDataset st [-1] := by
  let st : Statistics ℚ := (initial (sampleConfig 0 Tag.max.bit)).updated (.inUnit .nsec) (-1) 0 []
  have hmax : st.getMax = .ok doubleMin := by decide +kernel
  refine ⟨st, run_singleton_ok.2 (update_of_not_histogram (.inr rfl) (-1) 0), hmax, fun hw => ?_⟩
  obtain ⟨m, hm, hmem, -⟩ := hw.max (by decide +kernel)
  obtain rfl := Except.ok.inj (hmax.symm.trans hm)
  have hsentinel : (doubleMin : ℚ) = -1 := List.mem_singleton.1 hmem
  revert hsentinel
  decide +kernel

end Handystats.Statistics
