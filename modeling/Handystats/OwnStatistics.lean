/-
What the library says about itself is true: the number of metrics, the number
of messages popped and the last size of the queue, in every state of the
processing thread and so in every dump.
-/
import Handystats.DumpRun

namespace Handystats

open Runs

variable {K : Type} [Field K] [LinearOrder K] {env : Environment K} {cfg : Config} {pf : Platform K}

/-! ## Values that are fed -/

omit [Field K] [LinearOrder K] in
theorem Statistics.getValue_of_computed {st : Statistics K} (h : st.computed .value = true) :
    st.getValue = .ok st.value := get_of_computed h _

/-- The value of a gauge is the last one set. -/
theorem Gauge.set_value {gauge gauge' : Gauge K} {opts : StatisticsConfig} (h : gauge.values.InUse pf opts)
    (hv : opts.computed .value = true) {value : K} {t : Int} (hs : gauge.set pf value t = .ok gauge') :
    gauge'.values.value = value := by
  obtain ⟨values, hu, hgauge⟩ := bind_eq_ok.1 hs
  obtain rfl := Except.ok.inj hgauge
  obtain ⟨_, -, rfl⟩ := Statistics.update_ok.1 hu
  have hcomputed : gauge.values.computed .value = true := by
    rw [Statistics.computed, h.reachable.config_eq, hv]
  change (if gauge.values.computed .value then value else gauge.values.value) = value
  rw [if_pos hcomputed]

/-- The value of statistics after a run that ends with an update. -/
theorem Counter.value_of_fed {values values' : Statistics K} (calls : List Counter.StatisticsCall) {v : Int64}
    {t : Int} (hv : values.config.computed .value = true)
    (h : run (Counter.feed pf) values (calls ++ [.update v t]) = .ok values') :
    values'.value = toDouble v.toInt := by
  obtain ⟨m, hm, hlast⟩ := run_append_ok.1 h
  obtain ⟨_, -, rfl⟩ := Statistics.update_ok.1 (run_singleton_ok.1 hlast)
  have hcomputed : m.computed .value = true := by rw [Statistics.computed, run_feed_config hm, hv]
  change (if m.computed .value then _ else m.value) = _
  rw [if_pos hcomputed]

namespace Counter

/-- A counter that has counted `n` increments by 1: unless there was none, it is
initialised. -/
structure Counted (n : Nat) (counter : Counter K) : Prop where
  value : counter.value = Int64.ofInt n
  values : counter.values.value = (toDouble counter.value.toInt : K)
  stamp : counter.timestamp = timePointZero ↔ n = 0

theorem Counted.increment {counter counter' : Counter K} {n : Nat} {opts : StatisticsConfig}
    (h : Counted n counter) (hu : counter.values.InUse pf opts) (hv : opts.computed .value = true) {t : Int}
    (ht : t ≠ timePointZero) (hs : counter.increment pf 1 t = .ok counter') : Counted (n + 1) counter' := by
  have hv' : counter.values.config.computed .value = true := by rw [hu.reachable.config_eq, hv]
  have happly : (CounterCall.increment 1 t).apply (Int64.ofInt n) = Int64.ofInt ((n + 1 : Nat) : Int) := by
    rw [CounterCall.apply_ofInt rfl]
    rfl
  have hstep : step pf counter (.increment 1 t) = .ok counter' := hs
  obtain ⟨values, hvalues, rfl⟩ := step_ok hstep
  by_cases h₀ : counter.timestamp = timePointZero
  · -- The first increment makes the counter.
    obtain rfl := h.stamp.1 h₀
    rw [feeds_fresh rfl h₀] at hvalues
    rw [after_fresh rfl h₀]
    refine ⟨happly, value_of_fed [.reset, .update 0 t] hv' hvalues, ?_⟩
    simpa [CounterCall.timestamp] using ht
  · rw [feeds_change rfl h₀] at hvalues
    rw [after_change rfl h₀]
    refine ⟨?_, value_of_fed [] hv' hvalues, ?_⟩
    · rw [h.value]
      exact happly
    · change max counter.timestamp t = timePointZero ↔ n + 1 = 0
      unfold timePointZero at *
      omega

omit [LinearOrder K] in
theorem counted_zero {counter : Counter K} (hvalue : counter.value = 0) (hvalues : counter.values.value = 0)
    (hstamp : counter.timestamp = timePointZero) : Counted 0 counter :=
  ⟨hvalue, by simp [hvalues, hvalue], by simp [hstamp]⟩

end Counter

namespace Processor

variable {s s' s₀ m : Processor K} {t : Turn} {turns : List Turn} {sizes : List Nat}

/-! ## What the turns take -/

/-- The size that `pop` reads, if it obtains a message. -/
def Turn.mqSize? (t : Turn) : Option Nat :=
  match t.found with
  | .message _ _ _ mqSize => some mqSize
  | _ => none

/-- The sizes of the queue that the turns read, one for each message. -/
def sizesRead (turns : List Turn) : List Nat := turns.filterMap Turn.mqSize?

/-- The clock never reads the default time point when a message is popped. -/
def PopsStamped (turns : List Turn) : Prop :=
  ∀ t ∈ turns, ∀ message sur currentTime mqSize, t.found = .message message sur currentTime mqSize →
    currentTime ≠ timePointZero

/-- What the library says of itself is true, `pop` having read these sizes. -/
structure OwnTrue (sizes : List Nat) (s : Processor K) : Prop where
  size : s.internal.size.values.value = (toDouble s.internal.metricsMap.entries.length : K)
  queueSize : s.queue.size.values.value = (toDouble (sizes.getLast?.getD 0 : Nat) : K)
  popCount : Counter.Counted sizes.length s.queue.popCount

theorem OwnTrue.initialized {internalNow queueNow : Int} [IsStrictOrderedRing K]
    (h₀ : initialized env internalNow queueNow = .ok s) : OwnTrue [] s := by
  obtain ⟨_, -, h⟩ := bind_eq_ok.1 h₀
  obtain ⟨internal, hinternal, h⟩ := bind_eq_ok.1 h
  obtain ⟨queue, hqueue, h⟩ := bind_eq_ok.1 h
  cases h
  refine ⟨?_, ?_, ?_⟩
  · have hmap := Internal.initialized_metricsMap hinternal
    obtain ⟨size, hnew, hinternal⟩ := bind_eq_ok.1 hinternal
    obtain ⟨size', hset, hinternal⟩ := bind_eq_ok.1 hinternal
    obtain ⟨_, -, hinternal⟩ := bind_eq_ok.1 hinternal
    cases hinternal
    change size'.values.value = _
    rw [Gauge.set_value ((Gauge.new_returnsIff _).ends.of_ok hnew) (by decide +kernel) hset, hmap]
    simp
  · obtain ⟨size, hnew, hqueue⟩ := bind_eq_ok.1 hqueue
    obtain ⟨size', hset, hqueue⟩ := bind_eq_ok.1 hqueue
    obtain ⟨_, -, hqueue⟩ := bind_eq_ok.1 hqueue
    obtain ⟨_, -, hqueue⟩ := bind_eq_ok.1 hqueue
    cases hqueue
    change size'.values.value = _
    rw [Gauge.set_value ((Gauge.new_returnsIff _).ends.of_ok hnew) (by decide +kernel) hset]
    simp
  · obtain ⟨_, -, hqueue⟩ := bind_eq_ok.1 hqueue
    obtain ⟨_, -, hqueue⟩ := bind_eq_ok.1 hqueue
    obtain ⟨_, -, hqueue⟩ := bind_eq_ok.1 hqueue
    obtain ⟨popCount, hpop, hqueue⟩ := bind_eq_ok.1 hqueue
    cases hqueue
    obtain ⟨values, hvalues, hpop⟩ := bind_eq_ok.1 hpop
    cases hpop
    unfold Statistics.new Statistics.reset at hvalues
    split_ifs at hvalues
    cases hvalues
    exact Counter.counted_zero rfl rfl rfl

/-- A dump changes none of these values. -/
theorem OwnTrue.publish {systemTime internalTime : Int} {readings : MetricsDump.Readings} (h : OwnTrue sizes s)
    (hs : s.publish env cfg systemTime internalTime readings = .ok s') : OwnTrue sizes s' := by
  obtain ⟨hinternal, hqueue, -⟩ := publish_ok hs
  refine ⟨?_, ?_, ?_⟩
  · rw [hinternal]
    change (s.internal.size.values.updateTime _ _).value =
      (toDouble (List.map _ s.internal.metricsMap.entries).length : K)
    rw [Statistics.updateTime_value, List.length_map, h.size]
  · rw [hqueue]
    exact (Statistics.updateTime_value _).trans h.queueSize
  · rw [hqueue]
    exact ⟨h.popCount.value, (Statistics.updateTime_value _).trans h.popCount.values, h.popCount.stamp⟩

theorem sizesRead_concat (turns : List Turn) (t : Turn) :
    sizesRead (turns ++ [t]) = sizesRead turns ++ (Turn.mqSize? t).toList := by
  cases h : Turn.mqSize? t <;> simp [sizesRead, h]

variable [IsStrictOrderedRing K]

omit [IsStrictOrderedRing K] in
theorem OwnTrue.take (h : OwnTrue sizes s) (hI : Inv env s)
    (hstamped : ∀ message sur currentTime mqSize, t.found = .message message sur currentTime mqSize →
      currentTime ≠ timePointZero)
    (hs : s.take env cfg t.found = .ok m) : OwnTrue (sizes ++ (Turn.mqSize? t).toList) m := by
  rcases take_ok hs with ⟨message, sur, currentTime, mqSize, hfound, hqueue, hinternal, -, -⟩ |
    ⟨hfound, rfl⟩ | ⟨now, hfound, rfl⟩
  · have hsize : Turn.mqSize? t = some mqSize := by rw [Turn.mqSize?, hfound]
    obtain ⟨size, hset, hqueue⟩ := bind_eq_ok.1 hqueue
    obtain ⟨popCount, hincrement, hqueue⟩ := bind_eq_ok.1 hqueue
    obtain ⟨wait, -, hqueue⟩ := bind_eq_ok.1 hqueue
    have hqueue := (Except.ok.inj hqueue).symm
    rw [hsize, Option.toList_some]
    refine ⟨?_, ?_, ?_⟩
    · obtain ⟨_, -, hinternal⟩ := bind_eq_ok.1 hinternal
      obtain ⟨_, -, hinternal⟩ := bind_eq_ok.1 hinternal
      obtain ⟨_, -, hinternal⟩ := bind_eq_ok.1 hinternal
      obtain ⟨size, hset, hinternal⟩ := bind_eq_ok.1 hinternal
      rw [← Except.ok.inj hinternal]
      exact Gauge.set_value hI.internal.size (by decide +kernel) hset
    · rw [hqueue, List.getLast?_concat, Option.getD_some]
      exact Gauge.set_value hI.queue.size (by decide +kernel) hset
    · rw [hqueue, List.length_append, List.length_singleton]
      exact h.popCount.increment hI.queue.popCount (by decide +kernel)
        (hstamped message sur currentTime mqSize hfound) hincrement
  · have hsize : Turn.mqSize? t = none := by rw [Turn.mqSize?, hfound]
    rw [hsize, Option.toList_none, List.append_nil]
    exact h
  · have hsize : Turn.mqSize? t = none := by rw [Turn.mqSize?, hfound]
    rw [hsize, Option.toList_none, List.append_nil]
    exact ⟨h.size, h.queueSize, h.popCount⟩

theorem run_ownTrue {internalNow queueNow : Int} (h₀ : initialized env internalNow queueNow = .ok s₀)
    (hstamped : PopsStamped turns) (h : run (turn env cfg) s₀ turns = .ok s) :
    OwnTrue (sizesRead turns) s ∧ Inv env s := by
  have hthroughout : Throughout (turn env cfg) s₀ turns fun _ _ t => ∀ message sur currentTime mqSize,
      t.found = .message message sur currentTime mqSize → currentTime ≠ timePointZero := by
    intro pre t post m hturns _
    exact hstamped t (by simp [hturns])
  refine run_inv_throughout (I := fun turns s => OwnTrue (sizesRead turns) s ∧ Inv env s) ?_
    ⟨OwnTrue.initialized h₀, Inv.initialized h₀⟩ h hthroughout
  intro pre s t s' hI ht hs
  obtain ⟨htrue, hinv⟩ := hI
  obtain ⟨m, hm, hcases⟩ := turn_ok hs
  have hmtrue := htrue.take hinv ht hm
  refine ⟨?_, hinv.of_turn hs⟩
  rw [sizesRead_concat]
  rcases hcases with ⟨-, hpublish⟩ | ⟨-, rfl⟩
  · exact hmtrue.publish hpublish
  · exact hmtrue

/-! ## What a dump says -/

/-- The dump has a metric under the name whose `get<tag::value>` is `x`. -/
def Says (dump : Dump K) (name : String) (x : K) : Prop :=
  ∃ metric st, dump.lookup name = some metric ∧ metric.statistics = some st ∧ st.getValue = .ok x

omit [IsStrictOrderedRing K] in
theorem says_of_lookup {dump : Dump K} {name : String} {metric : MetricVariant K} {st : Statistics K}
    {opts : StatisticsConfig} {t : Int} {x : K} (hfound : dump.lookup name = some metric)
    (hst : metric.statistics = some (st.updateTime pf t)) (hu : st.InUse pf opts)
    (hv : opts.computed .value = true) (hx : st.value = x) : Says dump name x := by
  refine ⟨metric, _, hfound, hst, ?_⟩
  have hcomputed : (st.updateTime pf t).computed .value = true := by
    rw [Statistics.updateTime_computed, Statistics.computed, hu.reachable.config_eq, hv]
  rw [Statistics.getValue_of_computed hcomputed, Statistics.updateTime_value, hx]

/-- **The library's own entries are true.** Where a dump was made, and no metric
of the user's has their names, they say how many metrics there were in the state
that the dump is of, how many messages had been popped, and what size of the
queue the last pop had read: as a `double` each, which up to `2 ^ 53` is the
number itself (`toDouble_natCast`). -/
theorem own_entries_true {internalNow queueNow : Int} (h₀ : initialized env internalNow queueNow = .ok s₀)
    (hstamped : PopsStamped turns) (h : run (turn env cfg) s₀ turns = .ok s)
    (hmade : publications env cfg s₀ turns ≠ []) :
    ∃ pre t post before m, turns = pre ++ t :: post ∧ run (turn env cfg) s₀ pre = .ok before ∧
      before.take env cfg t.found = .ok m ∧
      publications env cfg s₀ (pre ++ [t]) = publications env cfg s₀ turns ∧
      (m.internal.metricsMap.lookup "handystats.internal.size" = none →
        Says s.metricsDump.dump "handystats.internal.size" (toDouble m.internal.metricsMap.entries.length)) ∧
      (m.internal.metricsMap.lookup "handystats.message_queue.pop_count" = none →
        Says s.metricsDump.dump "handystats.message_queue.pop_count"
          (toDouble (Int64.ofInt (sizesRead (pre ++ [t])).length).toInt)) ∧
      (m.internal.metricsMap.lookup "handystats.message_queue.size" = none →
        Says s.metricsDump.dump "handystats.message_queue.size"
          (toDouble ((sizesRead (pre ++ [t])).getLast?.getD 0 : Nat))) := by
  rcases run_published h₀ h with ⟨hnone, -⟩ | ⟨pre, t, post, before, m, hturns, hpre, hm, hlog, -, hlookup⟩
  · exact absurd hnone hmade
  have hstamped' : PopsStamped (pre ++ [t]) := by
    intro u hu
    exact hstamped u (by rw [hturns]; simp at hu ⊢; tauto)
  obtain ⟨hbefore, hinv⟩ := run_ownTrue h₀ (fun u hu => hstamped' u (by simp [hu])) hpre
  have htrue := hbefore.take hinv (hstamped' t (by simp)) hm
  have hinv := hinv.of_take hm
  rw [← sizesRead_concat] at htrue
  refine ⟨pre, t, post, before, m, hturns, hpre, hm, hlog, fun hname => ?_, fun hname => ?_, fun hname => ?_⟩
  · have hfound : s.metricsDump.dump.lookup "handystats.internal.size" =
        some (.gauge (m.internal.size.updateStatistics env.platform t.systemTime)) := by
      rw [hlookup, hname]
      rfl
    exact says_of_lookup hfound rfl hinv.internal.size (by decide +kernel) htrue.size
  · have hfound : s.metricsDump.dump.lookup "handystats.message_queue.pop_count" =
        some (.counter (m.queue.popCount.updateStatistics env.platform t.systemTime)) := by
      rw [hlookup, hname]
      rfl
    refine says_of_lookup hfound rfl hinv.queue.popCount (by decide +kernel) ?_
    rw [htrue.popCount.values, htrue.popCount.value]
  · have hfound : s.metricsDump.dump.lookup "handystats.message_queue.size" =
        some (.gauge (m.queue.size.updateStatistics env.platform t.systemTime)) := by
      rw [hlookup, hname]
      rfl
    exact says_of_lookup hfound rfl hinv.queue.size (by decide +kernel) htrue.queueSize

theorem popsStamped_sampleTurns : PopsStamped sampleTurns := by
  intro t ht message sur currentTime mqSize hfound
  simp only [sampleTurns, List.mem_cons, List.not_mem_nil, or_false] at ht
  rcases ht with rfl | rfl | rfl
  · cases hfound
    decide
  · cases hfound
  · cases hfound
    decide

theorem own_entries_true_sample :
    ∃ s₀ s m : Processor ℚ, initialized Internal.sampleEnvironment 1 1 = .ok s₀ ∧
      run (turn Internal.sampleEnvironment Config.default) s₀ sampleTurns = .ok s ∧
      m.internal.metricsMap.lookup "handystats.internal.size" = none ∧
      Says s.metricsDump.dump "handystats.internal.size" (toDouble m.internal.metricsMap.entries.length) := by
  obtain ⟨s₀, h₀, hrun, hmade⟩ : ∃ s₀ : Processor ℚ, initialized Internal.sampleEnvironment 1 1 = .ok s₀ ∧
      (run (turn Internal.sampleEnvironment Config.default) s₀ sampleTurns).toBool = true ∧
      (publications Internal.sampleEnvironment Config.default s₀ sampleTurns).length = 1 := by
    decide +kernel
  -- No state along the run has a metric of that name.
  have hfree : ∀ i : Fin sampleTurns.length, ∃ m : Processor ℚ,
      (initialized Internal.sampleEnvironment 1 1 >>= fun s₀ =>
        run (turn Internal.sampleEnvironment Config.default) s₀ (sampleTurns.take i) >>= fun before =>
          before.take Internal.sampleEnvironment Config.default (sampleTurns.get i).found) = .ok m ∧
        m.internal.metricsMap.lookup "handystats.internal.size" = none := by
    decide +kernel
  obtain ⟨s, hs⟩ := exists_ok_of_toBool hrun
  have hnonempty : publications Internal.sampleEnvironment Config.default s₀ sampleTurns ≠ [] := by
    intro hnone
    rw [hnone] at hmade
    cases hmade
  obtain ⟨pre, t, post, before, m, hturns, hpre, hm, -, hsize, -⟩ :=
    own_entries_true h₀ popsStamped_sampleTurns hs hnonempty
  have hlt : pre.length < sampleTurns.length := by simp [hturns]
  obtain ⟨m', hm', hnone⟩ := hfree ⟨pre.length, hlt⟩
  have htake : sampleTurns.take pre.length = pre := by rw [hturns, List.take_left]
  have hget : sampleTurns.get ⟨pre.length, hlt⟩ = t := List.getElem_of_append hturns rfl
  rw [hget] at hm'
  obtain rfl : m' = m := by
    have hchain : (initialized Internal.sampleEnvironment 1 1 >>= fun s₀ =>
        run (turn Internal.sampleEnvironment Config.default) s₀ (sampleTurns.take pre.length) >>= fun before =>
          before.take Internal.sampleEnvironment Config.default t.found) = .ok m :=
      bind_eq_ok.2 ⟨s₀, h₀, bind_eq_ok.2 ⟨before, by rw [htake, hpre], hm⟩⟩
    exact Except.ok.inj (hm'.symm.trans hchain)
  exact ⟨s₀, s, m', h₀, hs, hnone, hsize hnone⟩

end Processor

end Handystats
