/-
The dumps that a run of the processing thread publishes.

`publications` is history: the dumps that were made, each with the state it
was made in. The published dump is the copy of one state, the last of these
(`published_is_snapshot`); dumps are more than an interval apart, and no turn
ends with one that is older (`dumps_spaced`); and what they say of the library
itself is true (`own_entries_true`).
-/
import Handystats.CounterLaw
import Handystats.EffectiveOptions
import Handystats.ProcessorFacts

namespace Handystats

open Runs FirstInsert

variable {K : Type} [Field K] [LinearOrder K] {env : Environment K} {cfg : Config}

/-- A dump that is made: when, what of, and with which readings of the clock. -/
structure Publication (K : Type) where
  time : Int
  state : Processor K
  readings : MetricsDump.Readings

namespace Processor

variable {s s' s₀ m : Processor K} {t : Turn} {turns : List Turn}

/-- The dumps that the turns make, in order. -/
def publications (env : Environment K) (cfg : Config) (s : Processor K) : List Turn → List (Publication K)
  | [] => []
  | t :: turns =>
    match s.take env cfg t.found with
    | .error _ => []
    | .ok m =>
      let due := MetricsDump.due env cfg.metricsDumpOpts.interval m.metricsDump.dumpTimestamp t.systemTime
      let made := if due then [⟨t.systemTime, m, t.readings⟩] else []
      match m.update env cfg t.systemTime m.lastMessageTimestamp t.readings with
      | .error _ => []
      | .ok s' => made ++ publications env cfg s' turns

theorem publications_cons (h : s.turn env cfg t = .ok s') (turns : List Turn) :
    publications env cfg s (t :: turns) = publications env cfg s [t] ++ publications env cfg s' turns := by
  obtain ⟨m, hm, hu⟩ := bind_eq_ok.1 h
  simp only [publications, hm, hu, List.append_nil]

theorem publications_concat (h : run (turn env cfg) s turns = .ok m) (t : Turn) :
    publications env cfg s (turns ++ [t]) = publications env cfg s turns ++ publications env cfg m [t] := by
  induction turns generalizing s with
  | nil =>
    obtain rfl := Except.ok.inj h
    rfl
  | cons u turns ih =>
    obtain ⟨s', hs', hrest⟩ := run_cons_ok.1 h
    rw [List.cons_append, publications_cons hs', publications_cons hs' turns, ih hrest, List.append_assoc]

/-- What a turn publishes. -/
theorem publications_turn (h : s.turn env cfg t = .ok s') :
    ∃ m, s.take env cfg t.found = .ok m ∧
      ((publications env cfg s [t] = [⟨t.systemTime, m, t.readings⟩] ∧
          MetricsDump.due env cfg.metricsDumpOpts.interval m.metricsDump.dumpTimestamp t.systemTime = true ∧
          m.publish env cfg t.systemTime m.lastMessageTimestamp t.readings = .ok s') ∨
        (publications env cfg s [t] = [] ∧
          MetricsDump.due env cfg.metricsDumpOpts.interval m.metricsDump.dumpTimestamp t.systemTime = false ∧
          s' = m)) := by
  obtain ⟨m, hm, hcases⟩ := turn_ok h
  obtain ⟨m', hm', hu⟩ := bind_eq_ok.1 h
  obtain rfl := Except.ok.inj (hm.symm.trans hm')
  refine ⟨m, hm, hcases.imp ?_ ?_⟩
  · intro h
    exact ⟨by simp [publications, hm, hu, h.1], h⟩
  · intro h
    exact ⟨by simp [publications, hm, hu, h.1], h⟩

/-- **Runs with their publications.** What holds at the start and is kept by each
turn, with what it publishes, holds after every run. -/
theorem run_publications {I : List Turn → List (Publication K) → Processor K → Prop}
    (hstep : ∀ pre log s t s', I pre log s → s.turn env cfg t = .ok s' →
      I (pre ++ [t]) (log ++ publications env cfg s [t]) s')
    (h₀ : I [] [] s₀) (h : run (turn env cfg) s₀ turns = .ok s) : I turns (publications env cfg s₀ turns) s := by
  have hrun : run (turn env cfg) s₀ turns = .ok s ∧ I turns (publications env cfg s₀ turns) s := by
    refine run_inv (I := fun pre s => run (turn env cfg) s₀ pre = .ok s ∧ I pre (publications env cfg s₀ pre) s)
      ?_ ⟨rfl, h₀⟩ h
    intro pre s t s' hI hs
    rw [publications_concat hI.1]
    exact ⟨run_append_ok.2 ⟨s, hI.1, run_singleton_ok.2 hs⟩, hstep pre _ s t s' hI.2 hs⟩
  exact hrun.2

/-! ## What is published -/

/-- The dump is the copy of one state: every metric with statistics and every
attribute under its name, as it is at the time of the latest message, and the
library's entries under the names that are left. -/
structure Copies (env : Environment K) (cfg : Config) (p : Publication K) (metricsDump : MetricsDump K) :
    Prop where
  dumpTimestamp : metricsDump.dumpTimestamp = p.time
  lookup : ∀ name, metricsDump.dump.lookup name =
    ((p.state.internal.metricsMap.lookup name).bind fun metricPtr =>
      MetricsDump.shown (Internal.updateMetric env p.state.lastMessageTimestamp metricPtr)).or
    ((MetricsDump.ownEntries env cfg.metricsDumpOpts.interval
      (p.state.refreshed env p.time p.state.lastMessageTimestamp)
      (p.state.queue.update env.platform p.time) metricsDump.dumpTime p.readings).lookup name)

/-- What is published after these turns: nothing, if none of them publishes, or
the copy that the last one made that does. -/
def Published (env : Environment K) (cfg : Config) (s₀ : Processor K) (turns : List Turn)
    (log : List (Publication K)) (metricsDump : MetricsDump K) : Prop :=
  (log = [] ∧ metricsDump.dump = ∅ ∧ metricsDump.dumpTimestamp = timePointZero) ∨
    ∃ pre t post s m, turns = pre ++ t :: post ∧ run (turn env cfg) s₀ pre = .ok s ∧
      s.take env cfg t.found = .ok m ∧ publications env cfg s₀ (pre ++ [t]) = log ∧
      Copies env cfg ⟨t.systemTime, m, t.readings⟩ metricsDump

theorem take_metricsDump {found : Found} (h : s.take env cfg found = .ok m) :
    m.metricsDump = s.metricsDump := by
  rcases take_ok h with ⟨_, _, _, _, -, -, -, hdump, -⟩ | ⟨-, rfl⟩ | ⟨now, -, rfl⟩
  · exact hdump
  · rfl
  · rfl

theorem publish_copies {systemTime : Int} {readings : MetricsDump.Readings}
    (h : m.publish env cfg systemTime m.lastMessageTimestamp readings = .ok s') :
    Copies env cfg ⟨systemTime, m, readings⟩ s'.metricsDump := by
  obtain ⟨hinternal, hqueue, -, htime, hdump, -⟩ := publish_ok h
  refine ⟨htime, fun name => ?_⟩
  rw [hdump, MetricsDump.lookup_insertAll_shown, hinternal, hqueue]
  congr 1
  change ((Internal.mapMetrics _ m.internal.metricsMap).lookup name).bind _ = _
  rw [Internal.lookup_mapMetrics, Option.bind_map]
  rfl

theorem initialized_metricsDump {internalNow queueNow : Int}
    (h₀ : initialized env internalNow queueNow = .ok s₀) :
    s₀.metricsDump.dump = ∅ ∧ s₀.metricsDump.dumpTimestamp = timePointZero := by
  obtain ⟨metricsDump, hdump, h₀⟩ := bind_eq_ok.1 h₀
  obtain ⟨_, -, h₀⟩ := bind_eq_ok.1 h₀
  obtain ⟨_, -, h₀⟩ := bind_eq_ok.1 h₀
  obtain ⟨_, -, hdump⟩ := bind_eq_ok.1 hdump
  cases h₀
  cases hdump
  exact ⟨rfl, rfl⟩

theorem run_published {internalNow queueNow : Int}
    (h₀ : initialized env internalNow queueNow = .ok s₀) (h : run (turn env cfg) s₀ turns = .ok s) :
    Published env cfg s₀ turns (publications env cfg s₀ turns) s.metricsDump := by
  have hrun : run (turn env cfg) s₀ turns = .ok s ∧
      Published env cfg s₀ turns (publications env cfg s₀ turns) s.metricsDump := by
    refine run_inv (I := fun turns s => run (turn env cfg) s₀ turns = .ok s ∧
      Published env cfg s₀ turns (publications env cfg s₀ turns) s.metricsDump) ?_ ?_ h
    · intro pre s t s' hI hs
      obtain ⟨hpre, hI⟩ := hI
      refine ⟨run_append_ok.2 ⟨s, hpre, run_singleton_ok.2 hs⟩, ?_⟩
      obtain ⟨m, hm, ⟨-, -, hpublish⟩ | ⟨hlog, -, rfl⟩⟩ := publications_turn hs
      · exact .inr ⟨pre, t, [], s, m, rfl, hpre, hm, rfl, publish_copies hpublish⟩
      · rw [publications_concat hpre, hlog, List.append_nil, take_metricsDump hm]
        refine hI.imp_right fun hcopy => ?_
        obtain ⟨pre', t', post, s', m', rfl, hcopy⟩ := hcopy
        exact ⟨pre', t', post ++ [t], s', m', by simp, hcopy⟩
    · exact ⟨rfl, .inl ⟨rfl, initialized_metricsDump h₀⟩⟩
  exact hrun.2

/-- **A dump is one snapshot.** What is published is empty, as long as no dump
was made; otherwise it is made of the one state `m` in which the last turn that
dumps found itself: it shows every metric of that state with statistics and
every attribute, brought up to its `last_message_timestamp` (that of the latest
message, or the clock of a later poll that found the queue empty), and besides
them only the library's own entries, where no such metric has the name. -/
theorem published_is_snapshot {internalNow queueNow : Int}
    (h₀ : initialized env internalNow queueNow = .ok s₀) (h : run (turn env cfg) s₀ turns = .ok s) :
    (publications env cfg s₀ turns = [] ∧ s.metricsDump.dump = ∅) ∨
    ∃ pre t post before m, turns = pre ++ t :: post ∧ run (turn env cfg) s₀ pre = .ok before ∧
      before.take env cfg t.found = .ok m ∧
      publications env cfg s₀ (pre ++ [t]) = publications env cfg s₀ turns ∧
      s.metricsDump.dumpTimestamp = t.systemTime ∧
      (∀ name metricPtr metric, m.internal.metricsMap.lookup name = some metricPtr →
        MetricsDump.shown (Internal.updateMetric env m.lastMessageTimestamp metricPtr) = some metric →
        s.metricsDump.dump.lookup name = some metric) ∧
      ∀ name metric, s.metricsDump.dump.lookup name = some metric →
        (∃ metricPtr, m.internal.metricsMap.lookup name = some metricPtr ∧
          MetricsDump.shown (Internal.updateMetric env m.lastMessageTimestamp metricPtr) = some metric) ∨
        (∀ metricPtr, m.internal.metricsMap.lookup name = some metricPtr →
          MetricsDump.shown (Internal.updateMetric env m.lastMessageTimestamp metricPtr) = none) ∧
        (name, metric) ∈ MetricsDump.ownEntries env cfg.metricsDumpOpts.interval
          (m.refreshed env t.systemTime m.lastMessageTimestamp)
          (m.queue.update env.platform t.systemTime) s.metricsDump.dumpTime t.readings := by
  refine (run_published h₀ h).imp (fun hnone => ⟨hnone.1, hnone.2.1⟩) fun hcopy => ?_
  obtain ⟨pre, t, post, before, m, hturns, hpre, hm, hlog, htime, hlookup⟩ := hcopy
  refine ⟨pre, t, post, before, m, hturns, hpre, hm, hlog, htime, ?_, ?_⟩
  · intro name metricPtr metric hfound hshown
    rw [hlookup, hfound, Option.bind_some, hshown, Option.some_or]
  · intro name metric hfound
    rw [hlookup] at hfound
    cases hmetric : m.internal.metricsMap.lookup name with
    | none =>
      rw [hmetric, Option.bind_none, Option.none_or] at hfound
      exact .inr ⟨by simp, mem_of_lookup hfound⟩
    | some metricPtr =>
      rw [hmetric, Option.bind_some] at hfound
      cases hshown : MetricsDump.shown (Internal.updateMetric env m.lastMessageTimestamp metricPtr) with
      | none =>
        rw [hshown, Option.none_or] at hfound
        exact .inr ⟨by simp [hshown], mem_of_lookup hfound⟩
      | some shown =>
        rw [hshown, Option.some_or] at hfound
        exact .inl ⟨metricPtr, rfl, hshown.trans hfound⟩

theorem published_is_snapshot_sample :
    ∃ s₀ s : Processor ℚ, initialized Internal.sampleEnvironment 1 1 = .ok s₀ ∧
      run (turn Internal.sampleEnvironment Config.default) s₀ sampleTurns = .ok s ∧
      ∃ t ∈ sampleTurns, s.metricsDump.dumpTimestamp = t.systemTime := by
  obtain ⟨s₀, h₀, hrun, hmade⟩ : ∃ s₀ : Processor ℚ, initialized Internal.sampleEnvironment 1 1 = .ok s₀ ∧
      (run (turn Internal.sampleEnvironment Config.default) s₀ sampleTurns).toBool = true ∧
      (publications Internal.sampleEnvironment Config.default s₀ sampleTurns).length = 1 := by
    decide +kernel
  obtain ⟨s, hs⟩ := exists_ok_of_toBool hrun
  rcases published_is_snapshot h₀ hs with ⟨hnone, -⟩ | ⟨pre, t, post, _, _, hturns, -, -, -, htime, -⟩
  · rw [hnone] at hmade
    cases hmade
  · exact ⟨s₀, s, h₀, hs, t, by rw [hturns]; simp, htime⟩

/-! ## When it is published -/

/-- The times of the publications, from the default time point on. -/
def dumpTimes (log : List (Publication K)) : List Int := timePointZero :: log.map Publication.time

omit [Field K] [LinearOrder K] in
theorem getLast?_dumpTimes_concat (log : List (Publication K)) (p : Publication K) :
    dumpTimes (log ++ [p]) = dumpTimes log ++ [p.time] := by
  simp [dumpTimes]

omit [Field K] in
/-- What makes a dump due, where the clock is no coarser than the interval. -/
theorem due_iff {interval : Duration} (hu : precisionClass env.platform.clock.unit ≤ precisionClass interval.unit)
    (dumpTimestamp systemTime : Int) :
    MetricsDump.due env interval dumpTimestamp systemTime = true ↔
      interval.rep ≠ 0 ∧ env.platform.clock.count interval < systemTime - dumpTimestamp := by
  have hcommon : commonUnit env.platform.clock.unit interval.unit = env.platform.clock.unit :=
    if_neg (not_lt.2 hu)
  have hgt := (Duration.comparisons_reads env.platform.clock.cyclesPerNanosec
    ⟨systemTime - dumpTimestamp, env.platform.clock.unit⟩ interval).gt
  rw [hcommon] at hgt
  have hself := Duration.convertTo_self env.platform.clock.cyclesPerNanosec
    ⟨systemTime - dumpTimestamp, env.platform.clock.unit⟩
  simp only at hself
  rw [hself] at hgt
  rw [MetricsDump.due, Bool.and_eq_true, decide_eq_true_iff, hgt, decide_eq_true_iff]
  rfl

/-- Two dumps are further apart than as many intervals as lie between them. -/
theorem spaced_of_isChain {times : List Int} {interval : Int}
    (h : times.IsChain fun a b => interval < b - a) {i k : Nat} {a b : Int} (ha : times[i]? = some a)
    (hb : times[i + (k + 1)]? = some b) : (k + 1) * interval < b - a := by
  induction k generalizing b with
  | zero =>
    obtain ⟨hi, rfl⟩ := List.getElem?_eq_some_iff.1 hb
    obtain ⟨-, rfl⟩ := List.getElem?_eq_some_iff.1 ha
    simpa using h.getElem i hi
  | succ k ih =>
    obtain ⟨hk, hb⟩ := List.getElem?_eq_some_iff.1 hb
    have hstep : interval < b - times[i + (k + 1)] := hb ▸ h.getElem (i + (k + 1)) hk
    have hbefore := ih (List.getElem?_eq_getElem (by omega))
    push_cast at hbefore ⊢
    linarith

/-- The times of the dumps, after these turns. -/
structure Spaced (env : Environment K) (cfg : Config) (turns : List Turn) (log : List (Publication K))
    (s : Processor K) : Prop where
  chain : (dumpTimes log).IsChain fun a b => env.platform.clock.count cfg.metricsDumpOpts.interval < b - a
  last : (dumpTimes log).getLast? = some s.metricsDump.dumpTimestamp
  fresh : cfg.metricsDumpOpts.interval.rep ≠ 0 → 0 ≤ env.platform.clock.count cfg.metricsDumpOpts.interval →
    ∀ t ∈ turns.getLast?, t.systemTime - s.metricsDump.dumpTimestamp ≤
      env.platform.clock.count cfg.metricsDumpOpts.interval
  off : cfg.metricsDumpOpts.interval.rep = 0 → log = [] ∧ s.metricsDump.dump = ∅

theorem Spaced.turn {log : List (Publication K)}
    (hu : precisionClass env.platform.clock.unit ≤ precisionClass cfg.metricsDumpOpts.interval.unit)
    (h : Spaced env cfg turns log s) (hs : s.turn env cfg t = .ok s') :
    Spaced env cfg (turns ++ [t]) (log ++ publications env cfg s [t]) s' := by
  obtain ⟨m, hm, hcases⟩ := publications_turn hs
  rw [take_metricsDump hm] at hcases
  rcases hcases with ⟨hlog, hdue, hpublish⟩ | ⟨hlog, hdue, rfl⟩
  · -- A dump is made, for this turn's time.
    obtain ⟨hrep, hgap⟩ := (due_iff hu _ _).1 hdue
    obtain ⟨-, -, -, htime, -⟩ := publish_ok hpublish
    rw [hlog]
    refine ⟨?_, ?_, fun _ hcount u hu => ?_, fun h => absurd h hrep⟩
    · rw [getLast?_dumpTimes_concat]
      refine h.chain.append (List.isChain_singleton _) fun a ha b hb => ?_
      rw [h.last] at ha
      cases ha
      cases hb
      exact hgap
    · rw [getLast?_dumpTimes_concat, List.getLast?_concat, htime]
    · rw [List.getLast?_concat] at hu
      cases hu
      rw [htime, sub_self]
      exact hcount
  · -- None is due.
    have hdump := take_metricsDump hm
    rw [hlog, List.append_nil]
    refine ⟨h.chain, hdump ▸ h.last, fun hrep _ u hu' => ?_, hdump ▸ h.off⟩
    rw [List.getLast?_concat] at hu'
    cases hu'
    by_contra hgap
    rw [hdump] at hgap
    rw [(due_iff hu _ _).2 ⟨hrep, not_le.1 hgap⟩] at hdue
    cases hdue

/-- **Dumps keep their interval.** Of the times of the dumps, from the default
time point on, two lie further apart than the intervals between them; a turn
ends with a dump no older than the interval, if that is neither 0 nor, in the
unit of the clock, negative; and an interval of 0 means that there is none. -/
theorem dumps_spaced {internalNow queueNow : Int}
    (hu : precisionClass env.platform.clock.unit ≤ precisionClass cfg.metricsDumpOpts.interval.unit)
    (h₀ : initialized env internalNow queueNow = .ok s₀) (h : run (turn env cfg) s₀ turns = .ok s) :
    (∀ (i k : Nat) (a b : Int), (dumpTimes (publications env cfg s₀ turns))[i]? = some a →
      (dumpTimes (publications env cfg s₀ turns))[i + (k + 1)]? = some b →
      (k + 1) * env.platform.clock.count cfg.metricsDumpOpts.interval < b - a) ∧
    (cfg.metricsDumpOpts.interval.rep ≠ 0 → 0 ≤ env.platform.clock.count cfg.metricsDumpOpts.interval →
      ∀ t ∈ turns.getLast?, t.systemTime - s.metricsDump.dumpTimestamp ≤
        env.platform.clock.count cfg.metricsDumpOpts.interval) ∧
    (cfg.metricsDumpOpts.interval.rep = 0 →
      publications env cfg s₀ turns = [] ∧ s.metricsDump.dump = ∅) := by
  have hdump := initialized_metricsDump h₀
  have hstart : Spaced env cfg [] [] s₀ :=
    ⟨List.isChain_singleton _, by rw [hdump.2]; rfl, by simp, fun _ => ⟨rfl, hdump.1⟩⟩
  have hspaced := run_publications (I := Spaced env cfg) (fun _ _ _ _ _ hI hs => hI.turn hu hs) hstart h
  exact ⟨fun i k a b ha hb => spaced_of_isChain hspaced.chain ha hb, hspaced.fresh, hspaced.off⟩

theorem dumps_spaced_sample :
    ∃ s₀ s : Processor ℚ, initialized Internal.sampleEnvironment 1 1 = .ok s₀ ∧
      run (turn Internal.sampleEnvironment Config.default) s₀ sampleTurns = .ok s ∧
      ∀ t ∈ sampleTurns.getLast?, t.systemTime - s.metricsDump.dumpTimestamp ≤
        Internal.sampleEnvironment.platform.clock.count Config.default.metricsDumpOpts.interval := by
  obtain ⟨s₀, s, h₀, hs⟩ := exists_run_sampleTurns
  have hspaced := dumps_spaced (by decide +kernel) h₀ hs
  exact ⟨s₀, s, h₀, hs, hspaced.2.1 (by decide +kernel) (by decide +kernel)⟩

end Processor

end Handystats
