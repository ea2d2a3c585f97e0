/-
What the metrics keep.

`InUse` is a statistics object that was constructed and fed since: its bins
fit into a vector, so that a `reset` cannot fail, and its counts are not
negative, so that no weighted average is taken with no weight. Every operation
of a metric keeps its statistics in use or runs into undefined behaviour; it
does not throw. What constructs a metric throws where its bins do not fit:
`ThrownUnless c` is said of faults that are exceptions only where `c` fails.
-/
import Handystats.HistogramFacts
import Handystats.Metrics

namespace Handystats

open Runs

variable {K : Type} [Field K] [LinearOrder K] {pf : Platform K}

/-- The fault is no exception. -/
def NotThrown (f : Fault) : Prop := f.isException = false

/-- The fault is no exception, if `c`. -/
def ThrownUnless (c : Prop) (f : Fault) : Prop := c → NotThrown f

theorem notThrown_undefined : NotThrown .undefinedBehaviour := rfl

/-- Returns a `P` if `c`, and otherwise throws. -/
def ReturnsIff {α : Type} (c : Prop) (P : α → Prop) (x : Except Fault α) : Prop :=
  (c ∧ ∃ a, x = .ok a ∧ P a) ∨ (¬ c ∧ ∃ f, x = .error f ∧ f.isException = true)

section

variable {α β : Type} {P : α → Prop} {R : β → Prop} {x : Except Fault α} {c d : Prop}

theorem thrownUnless (h : Ends P NotThrown x) : Ends P (ThrownUnless c) x :=
  h.mono_fault fun _ hf _ => hf

theorem thrownUnless_mono (h : Ends P (ThrownUnless c) x) (hcd : d → c) : Ends P (ThrownUnless d) x :=
  h.mono_fault fun _ hf hd => hf (hcd hd)

theorem ReturnsIff.congr (h : ReturnsIff c P x) (hcd : c ↔ d) : ReturnsIff d P x :=
  h.imp (And.imp_left hcd.1) (And.imp_left fun hc hd => hc (hcd.2 hd))

theorem ReturnsIff.ends (h : ReturnsIff c P x) : Ends P (ThrownUnless c) x := by
  rcases h with ⟨-, a, rfl, ha⟩ | ⟨hc, f, rfl, -⟩
  · exact ha
  · exact fun h => absurd h hc

theorem ReturnsIff.map (h : ReturnsIff c P x) {f : α → β} (hR : ∀ a, P a → R (f a)) :
    ReturnsIff c R (x >>= fun a => .ok (f a)) := by
  rcases h with ⟨hc, a, rfl, ha⟩ | ⟨hc, e, rfl, he⟩
  · exact .inl ⟨hc, f a, rfl, hR a ha⟩
  · exact .inr ⟨hc, e, rfl, he⟩

end

/-- This number of bins can be reserved. -/
def BinsFit (pf : Platform K) (histogramBins : Nat) : Prop :=
  0 < histogramBins → (histogramBins + 1) % 2 ^ 64 ≤ pf.maxSize

namespace Statistics

variable {st : Statistics K} {config : StatisticsConfig}

theorem reset_of_fit (h : BinsFit pf st.config.histogramBins) :
    st.reset pf = .ok (initial st.config) := by
  rw [reset, if_neg]
  intro h
  obtain ⟨hbins, hmax⟩ := h
  exact absurd (h hbins) (not_le.2 hmax)

theorem reset_of_not_fit (h : ¬ BinsFit pf st.config.histogramBins) :
    st.reset pf = .error .lengthError := by
  rw [reset, if_pos]
  simpa only [BinsFit, Classical.not_imp, not_le] using h

/-- An object of these options that was constructed and fed since. -/
structure InUse (pf : Platform K) (config : StatisticsConfig) (st : Statistics K) : Prop where
  binsFit : BinsFit pf config.histogramBins
  reachable : Reachable pf config st

theorem InUse.initial (h : BinsFit pf config.histogramBins) : InUse pf config (initial config) :=
  ⟨h, [], rfl⟩

theorem InUse.updateTime (h : InUse pf config st) (t : Int) : InUse pf config (st.updateTime pf t) :=
  ⟨h.binsFit, h.reachable.step (c := .updateTime t) rfl⟩

theorem new_returnsIff :
    ReturnsIff (BinsFit pf config.histogramBins) (InUse pf config) (new pf config) := by
  by_cases h : BinsFit pf config.histogramBins
  · exact .inl ⟨h, _, reset_of_fit h, .initial h⟩
  · exact .inr ⟨h, _, reset_of_not_fit h, rfl⟩

theorem InUse.reset_ends (h : InUse pf config st) : Ends (InUse pf config) NotThrown (st.reset pf) := by
  have hconfig := h.reachable.config_eq
  rw [reset_of_fit (by rw [hconfig]; exact h.binsFit), hconfig]
  exact .initial h.binsFit

end Statistics

/-! ## Statistics do not throw -/

section

variable [IsStrictOrderedRing K] {hist : Histogram K}

/-- A merge of bins that have counts does not throw. -/
theorem mergeClosest_ends (h : ∀ bin ∈ hist, 0 ≤ bin.count) :
    Ends (fun _ => True) NotThrown (mergeClosest hist) := by
  have helement : ∀ i, Ends (· ∈ hist) NotThrown (elementAt hist i) := by
    intro i
    unfold elementAt
    cases hi : hist[i]? with
    | none => exact notThrown_undefined
    | some bin => exact List.mem_of_getElem? hi
  refine (helement _).bind fun left hl => (helement _).bind fun right hr => ?_
  obtain ⟨bin, hbin, -⟩ := mergedBin_spec (h left hl) (h right hr)
  rw [hbin]
  trivial

theorem reduceHistogram_ends (h : ∀ bin ∈ hist, 0 ≤ bin.count) (bins : Nat) :
    Ends (fun _ => True) NotThrown (Statistics.reduceHistogram bins hist) := by
  unfold Statistics.reduceHistogram
  split_ifs
  · trivial
  · have hprune : Ends (fun pruned => ∀ bin ∈ pruned, 0 ≤ bin.count) NotThrown (removeEmptyBins hist) := by
      cases hp : removeEmptyBins hist with
      | ok pruned =>
        obtain ⟨removed, hpr⟩ := removeEmptyBins_ok hp
        exact fun bin hbin => h bin (hpr.sublist.subset hbin)
      | error f =>
        rw [removeSurroundedBins_error hp]
        exact notThrown_undefined
    refine hprune.bind fun pruned hcount => ?_
    split_ifs
    · trivial
    · exact mergeClosest_ends hcount

theorem Statistics.Reachable.update_ends {st : Statistics K} {config : StatisticsConfig}
    (h : Reachable pf config st) (v : K) (t : Int) :
    Ends (Reachable pf config) NotThrown (st.update pf v t) := by
  have hhist : Ends (fun _ => True) NotThrown
      (if st.computed .histogram then st.updateHistogram pf v t else .ok st.histogram) := by
    unfold updateHistogram
    split_ifs with hcomputed hbins
    · trivial
    · obtain ⟨calls, hcalls⟩ := h
      exact reduceHistogram_ends (hcalls.histogramInv.insertAndShift_count_nonneg hbins v t) _
    · trivial
  have hends : Ends (fun _ => True) NotThrown (st.update pf v t) := hhist.bind fun _ _ => trivial
  cases hu : st.update pf v t with
  | ok st' => exact h.step (c := .update v t) hu
  | error f => exact hends.of_error hu

/-- **`update` does not throw** on an object that was constructed and fed. -/
theorem Statistics.InUse.update_ends {st : Statistics K} {config : StatisticsConfig}
    (h : InUse pf config st) (v : K) (t : Int) :
    Ends (InUse pf config) NotThrown (st.update pf v t) :=
  (h.reachable.update_ends v t).mono fun _ hreach => ⟨h.binsFit, hreach⟩

/-! ## Metrics do not throw -/

section Metrics

variable {config : StatisticsConfig}

omit [IsStrictOrderedRing K] in
theorem Gauge.new_returnsIff (opts : GaugeConfig) :
    ReturnsIff (BinsFit pf opts.values.histogramBins) (fun gauge => gauge.values.InUse pf opts.values)
      (Gauge.new pf opts) :=
  Statistics.new_returnsIff.map fun _ hvalues => hvalues

theorem Gauge.set_ends {gauge : Gauge K} (h : gauge.values.InUse pf config) (value : K) (t : Int) :
    Ends (fun gauge => gauge.values.InUse pf config) NotThrown (gauge.set pf value t) :=
  (h.update_ends value t).bind fun _ hvalues => hvalues

omit [IsStrictOrderedRing K] in
theorem Counter.new_returnsIff (opts : CounterConfig) :
    ReturnsIff (BinsFit pf opts.values.histogramBins) (fun counter => counter.values.InUse pf opts.values)
      (Counter.new pf opts) :=
  Statistics.new_returnsIff.map fun _ hvalues => hvalues

theorem Counter.init_ends {counter : Counter K} (h : counter.values.InUse pf config) (value : Int64)
    (t : Int) : Ends (fun counter => counter.values.InUse pf config) NotThrown (counter.init pf value t) :=
  h.reset_ends.bind fun _ hvalues => (hvalues.update_ends _ _).bind fun _ hvalues => hvalues

theorem Counter.changed_ends {counter : Counter K} (h : counter.values.InUse pf config)
    (change : Int64 → Int64) (t : Int) :
    Ends (fun counter => counter.values.InUse pf config) NotThrown (counter.changed pf change t) := by
  refine Ends.bind (P := fun counter => counter.values.InUse pf config) ?_ fun counter hcounter =>
    (hcounter.update_ends _ _).bind fun _ hvalues => hvalues
  split_ifs
  · exact Counter.init_ends h 0 t
  · exact h

omit [IsStrictOrderedRing K] in
theorem Timer.new_returnsIff (opts : TimerConfig) :
    ReturnsIff (BinsFit pf opts.values.histogramBins) (fun timer => timer.values.InUse pf opts.values)
      (Timer.new pf opts) :=
  Statistics.new_returnsIff.map fun _ hvalues => hvalues

theorem Timer.set_ends {timer : Timer (Statistics K)} (h : timer.values.InUse pf config)
    (measurement : Duration) (t : Int) :
    Ends (fun timer => timer.values.InUse pf config) NotThrown
      (timer.set pf.clock (Timer.feed pf) measurement t) :=
  (h.update_ends _ t).bind fun _ hvalues => hvalues

omit [Field K] [LinearOrder K] [IsStrictOrderedRing K] in
theorem Timer.checkIdleTimeout_values (ck : Clock) (timer : Timer (Statistics K)) (t : Int) (force : Bool) :
    (timer.checkIdleTimeout ck t force).values = timer.values := by
  unfold Timer.checkIdleTimeout
  split_ifs <;> rfl

omit [Field K] [IsStrictOrderedRing K] in
theorem Timer.heartbeat_values (timer : Timer (Statistics K)) (id : UInt64) (t : Int) :
    (timer.heartbeat pf.clock id t).values = timer.values := by
  rw [← Timer.checkIdleTimeout_values pf.clock timer t false]
  unfold Timer.heartbeat Timer.heartbeaten
  split
  · rfl
  · split_ifs <;> rfl

theorem Timer.stop_ends {timer : Timer (Statistics K)} (h : timer.values.InUse pf config) (id : UInt64)
    (t : Int) :
    Ends (fun timer => timer.values.InUse pf config) NotThrown
      (timer.stop pf.clock (Timer.feed pf) id t) := by
  rw [← Timer.checkIdleTimeout_values pf.clock timer t false] at h
  unfold Timer.stop Timer.stopped
  split
  · exact h
  · split_ifs
    · exact h
    · exact (h.update_ends _ t).bind fun _ hvalues => hvalues

end Metrics

end

end Handystats
