/-
What a dump holds, and what the processing thread keeps.

`createDump_ok` says once what `create_dump` makes: the metrics that are shown,
and the library's own entries behind them. `Processor.Inv` is the invariant of
every turn; under it a dump never fails, and a turn fails only at a message.
-/
import Handystats.EventKinds
import Handystats.Processor

namespace Handystats

open Runs FirstInsert

variable {K : Type} [Field K] [LinearOrder K] {env : Environment K} {cfg : Config}

namespace MetricsDump

/-! ## What a dump holds -/

/-- What a dump shows of a metric: all of it, or nothing of one without
statistics. -/
def shown (metricPtr : MetricPtr K) : Option (MetricVariant K) :=
  match copied metricPtr with
  | .ok metric => metric
  | .error _ => none

/-- What a dump shows of all metrics, in the order of the map. -/
def shownMetrics (metricsMap : MetricsMap K) : List (String × MetricVariant K) :=
  metricsMap.entries.filterMap fun entry => (shown entry.2).map fun metric => (entry.1, metric)

/-- The entries of the library's own. -/
def ownEntries (env : Environment K) (interval : Duration) (internal : Internal K)
    (queue : MessageQueue.Stats K) (dumpTime : Gauge K) (readings : Readings) :
    List (String × MetricVariant K) :=
  [("handystats.internal.size", .gauge internal.size),
    ("handystats.internal.process_time", .gauge internal.processTime),
    ("handystats.message_queue.size", .gauge queue.size),
    ("handystats.message_queue.message_wait_time", .gauge queue.messageWaitTime),
    ("handystats.message_queue.pop_count", .counter queue.popCount),
    ("handystats.config.dump_interval",
      .attribute (Attribute.new.set (.int64 (Int64.ofInt (env.platform.clock.countIn .msec interval))))),
    ("handystats.dump_timestamp",
      .attribute (Attribute.new.set
        (.int64 (Int64.ofInt (env.platform.clock.countIn .msec ⟨readings.systemTimestamp, .nsec⟩))))),
    ("handystats.metrics_dump.dump_time", .gauge dumpTime)]

/-- What `stats::dump_time` is fed. -/
def elapsed (env : Environment K) (readings : Readings) : Int :=
  toDouble (env.platform.clock.countIn Timer.valueUnit
    ⟨readings.dumpEndTime - readings.dumpStartTime, env.platform.clock.unit⟩)

omit [Field K] [LinearOrder K] in
theorem copied_of_not_null {metricPtr : MetricPtr K} (h : metricPtr.isNull = false) :
    copied metricPtr = .ok (shown metricPtr) := by
  rcases metricPtr with (_ | _) | (_ | _) | (_ | _) | (_ | _)
  all_goals first
    | rfl
    | cases h

omit [Field K] [LinearOrder K] in
theorem copied_of_null {metricPtr : MetricPtr K} (h : metricPtr.isNull = true) :
    copied metricPtr = .error .undefinedBehaviour := by
  rcases metricPtr with (_ | _) | (_ | _) | (_ | _) | (_ | _)
  all_goals first
    | rfl
    | cases h

omit [Field K] [LinearOrder K] in
/-- A metric with statistics is shown as it is, whatever else. -/
theorem shown_eq_some {metricPtr : MetricPtr K} {metric : MetricVariant K} :
    shown metricPtr = some metric ↔
      (∃ counter, metricPtr = .counter (some counter) ∧ counter.values.config.tags ≠ Tag.empty ∧
        metric = .counter counter) ∨
      (∃ gauge, metricPtr = .gauge (some gauge) ∧ gauge.values.config.tags ≠ Tag.empty ∧
        metric = .gauge gauge) ∨
      (∃ timer, metricPtr = .timer (some timer) ∧ timer.values.config.tags ≠ Tag.empty ∧
        metric = .timer timer) ∨
      ∃ attr, metricPtr = .attribute (some attr) ∧ metric = .attribute attr := by
  rcases metricPtr with (_ | counter) | (_ | gauge) | (_ | timer) | (_ | attr)
  case counter.some =>
    by_cases ht : counter.values.config.tags = Tag.empty <;> simp [shown, copied, ht, @eq_comm _ metric]
  case gauge.some =>
    by_cases ht : gauge.values.config.tags = Tag.empty <;> simp [shown, copied, ht, @eq_comm _ metric]
  case timer.some =>
    by_cases ht : timer.values.config.tags = Tag.empty <;> simp [shown, copied, ht, @eq_comm _ metric]
  case attribute.some => simp [shown, copied, @eq_comm _ metric]
  all_goals simp [shown, copied]

omit [Field K] [LinearOrder K] in
theorem copyMetrics_eq {metricsMap : MetricsMap K}
    (h : ∀ entry ∈ metricsMap.entries, entry.2.isNull = false) :
    copyMetrics metricsMap = .ok (insertAll ∅ (shownMetrics metricsMap)) := by
  have hloop : ∀ (entries : List (Sigma fun _ : String => MetricPtr K)) (newDump : Dump K),
      (∀ entry ∈ entries, entry.2.isNull = false) →
      entries.foldlM copyEntry newDump = .ok (insertAll newDump
        (entries.filterMap fun entry => (shown entry.2).map fun metric => (entry.1, metric))) := by
    intro entries
    induction entries with
    | nil => exact fun _ _ => rfl
    | cons entry entries ih =>
      intro newDump hnull
      rw [List.foldlM_cons, copyEntry, copied_of_not_null (hnull entry (List.mem_cons_self ..))]
      cases hs : shown entry.2 with
      | none =>
        rw [List.filterMap_cons_none (by simp [hs])]
        exact ih newDump fun e he => hnull e (List.mem_cons_of_mem _ he)
      | some metric =>
        rw [List.filterMap_cons_some (b := (entry.1, metric)) (by simp [hs])]
        exact ih _ fun e he => hnull e (List.mem_cons_of_mem _ he)
  exact hloop metricsMap.entries ∅ h

omit [Field K] [LinearOrder K] in
/-- The loop follows no null pointer where it returns. -/
theorem not_null_of_copyMetrics {metricsMap : MetricsMap K} {dump : Dump K}
    (h : copyMetrics metricsMap = .ok dump) : ∀ entry ∈ metricsMap.entries, entry.2.isNull = false := by
  have hloop : ∀ (entries : List (Sigma fun _ : String => MetricPtr K)) (newDump : Dump K),
      entries.foldlM copyEntry newDump = .ok dump → ∀ entry ∈ entries, entry.2.isNull = false := by
    intro entries
    induction entries with
    | nil => exact fun _ _ _ he => by cases he
    | cons entry entries ih =>
      intro newDump hrun e he
      rw [List.foldlM_cons] at hrun
      obtain ⟨next, hnext, hrest⟩ := bind_eq_ok.1 hrun
      obtain ⟨metric, hmetric, -⟩ := bind_eq_ok.1 hnext
      rcases List.mem_cons.1 he with rfl | he
      · cases hnull : e.2.isNull with
        | false => rfl
        | true =>
          rw [copied_of_null hnull] at hmetric
          cases hmetric
      · exact ih next hrest e he
  exact hloop metricsMap.entries ∅ h

variable {interval : Duration} {internal : Internal K} {queue : MessageQueue.Stats K}
variable {dumpTime : Gauge K} {readings : Readings}

/-- What `create_dump` makes. -/
theorem createDump_ok {dump : Dump K} {dumpTime' : Gauge K} :
    createDump env interval internal queue dumpTime readings = .ok (dump, dumpTime') ↔
      (∀ entry ∈ internal.metricsMap.entries, entry.2.isNull = false) ∧
        dumpTime.set env.platform (elapsed env readings) readings.dumpEndTime = .ok dumpTime' ∧
        dump = insertAll (insertAll ∅ (shownMetrics internal.metricsMap))
          (ownEntries env interval internal queue dumpTime' readings) := by
  constructor
  · intro h
    obtain ⟨copies, hcopies, h⟩ := bind_eq_ok.1 h
    obtain ⟨_, hset, h⟩ := bind_eq_ok.1 h
    have hnull := not_null_of_copyMetrics hcopies
    rw [copyMetrics_eq hnull] at hcopies
    obtain rfl := Except.ok.inj hcopies
    obtain ⟨hdump, rfl⟩ := Prod.mk.inj (Except.ok.inj h)
    refine ⟨hnull, hset, hdump.symm.trans ?_⟩
    simp only [ownEntries, insertAll, List.foldl_cons, List.foldl_nil]
  · intro h
    obtain ⟨hnull, hset, hdump⟩ := h
    refine bind_eq_ok.2 ⟨_, copyMetrics_eq hnull, bind_eq_ok.2 ⟨_, hset, ?_⟩⟩
    rw [hdump]
    simp only [ownEntries, insertAll, List.foldl_cons, List.foldl_nil]

omit [Field K] [LinearOrder K] in
/-- A name shows its metric, or else the library's entry for it. -/
theorem lookup_insertAll_shown (metricsMap : MetricsMap K) (entries : List (String × MetricVariant K))
    (name : String) :
    (insertAll (insertAll ∅ (shownMetrics metricsMap)) entries).lookup name =
      ((metricsMap.lookup name).bind shown).or (entries.lookup name) := by
  rw [lookup_insertAll, lookup_insertAll, AList.lookup_empty, Option.none_or, shownMetrics,
    lookup_filterMap shown metricsMap]

end MetricsDump

/-! ## What the thread keeps -/

namespace Processor

variable {s s' : Processor K}

/-- The statistics of the queue are in use. -/
structure StatsInUse (pf : Platform K) (queue : MessageQueue.Stats K) : Prop where
  size : queue.size.values.InUse pf MessageQueue.Stats.sizeOpts.values
  messageWaitTime : queue.messageWaitTime.values.InUse pf MessageQueue.Stats.messageWaitTimeOpts.values
  popCount : queue.popCount.values.InUse pf MessageQueue.Stats.popCountOpts.values

/-- The invariant. -/
structure Inv (env : Environment K) (s : Processor K) : Prop where
  internal : s.internal.Inv env
  queue : StatsInUse env.platform s.queue
  dumpTime : s.metricsDump.dumpTime.values.InUse env.platform MetricsDump.dumpTimeOpts.values

theorem StatsInUse.update {queue : MessageQueue.Stats K} (h : StatsInUse env.platform queue) (t : Int) :
    StatsInUse env.platform (queue.update env.platform t) :=
  ⟨h.size.updateTime t, h.messageWaitTime.updateTime t, h.popCount.updateTime t⟩

/-- What `take` does. -/
theorem take_ok {found : Found} (h : s.take env cfg found = .ok s') :
    (∃ message sur currentTime mqSize, found = .message message sur currentTime mqSize ∧
      s.queue.popped env.platform mqSize message currentTime = .ok s'.queue ∧
      s.internal.processEventMessage env cfg message sur = .ok s'.internal ∧
      s'.metricsDump = s.metricsDump ∧
      s'.lastMessageTimestamp = max s.lastMessageTimestamp message.timestamp) ∨
    (found = .nothing ∧ s' = s) ∨
    ∃ now, found = .empty now ∧
      s' = { s with lastMessageTimestamp := max s.lastMessageTimestamp now } := by
  cases found with
  | message message sur currentTime mqSize =>
    obtain ⟨queue, hqueue, h⟩ := bind_eq_ok.1 h
    obtain ⟨internal, hinternal, h⟩ := bind_eq_ok.1 h
    cases h
    exact .inl ⟨message, sur, currentTime, mqSize, rfl, hqueue, hinternal, rfl, rfl⟩
  | nothing =>
    cases h
    exact .inr (.inl ⟨rfl, rfl⟩)
  | empty now =>
    cases h
    exact .inr (.inr ⟨now, rfl, rfl⟩)

/-- What becomes of the metrics when a dump is made. -/
theorem updateMetrics_ok {internal internal' : Internal K} {t : Int}
    (h : internal.updateMetrics env t = .ok internal') :
    internal' = { internal with
      metricsMap := Internal.mapMetrics (Internal.updateMetric env t) internal.metricsMap } := by
  unfold Internal.updateMetrics at h
  split_ifs at h
  exact (Except.ok.inj h).symm

/-- The metrics that a dump at this time shows. -/
def refreshed (env : Environment K) (s : Processor K) (systemTime internalTime : Int) : Internal K :=
  Internal.updateStats env
    { s.internal with
      metricsMap := Internal.mapMetrics (Internal.updateMetric env internalTime) s.internal.metricsMap }
    systemTime

/-- What `publish` does. -/
theorem publish_ok {systemTime internalTime : Int} {readings : MetricsDump.Readings}
    (h : s.publish env cfg systemTime internalTime readings = .ok s') :
    s'.internal = s.refreshed env systemTime internalTime ∧
      s'.queue = s.queue.update env.platform systemTime ∧
      (s.metricsDump.dumpTime.updateStatistics env.platform systemTime).set env.platform
        (MetricsDump.elapsed env readings) readings.dumpEndTime = .ok s'.metricsDump.dumpTime ∧
      s'.metricsDump.dumpTimestamp = systemTime ∧
      s'.metricsDump.dump = insertAll (insertAll ∅ (MetricsDump.shownMetrics s'.internal.metricsMap))
        (MetricsDump.ownEntries env cfg.metricsDumpOpts.interval s'.internal s'.queue
          s'.metricsDump.dumpTime readings) ∧
      s'.lastMessageTimestamp = s.lastMessageTimestamp := by
  obtain ⟨internal, hinternal, h⟩ := bind_eq_ok.1 h
  obtain ⟨r, hr, h⟩ := bind_eq_ok.1 h
  obtain ⟨dump, dumpTime⟩ := r
  obtain ⟨-, hset, hdump⟩ := MetricsDump.createDump_ok.1 hr
  rw [updateMetrics_ok hinternal] at hdump h
  cases h
  exact ⟨rfl, rfl, hset, rfl, hdump, rfl⟩

/-- A turn: what it takes, and a dump if one is due. -/
theorem turn_ok {t : Turn} (h : s.turn env cfg t = .ok s') :
    ∃ m, s.take env cfg t.found = .ok m ∧
      ((MetricsDump.due env cfg.metricsDumpOpts.interval m.metricsDump.dumpTimestamp t.systemTime = true ∧
          m.publish env cfg t.systemTime m.lastMessageTimestamp t.readings = .ok s') ∨
        (MetricsDump.due env cfg.metricsDumpOpts.interval m.metricsDump.dumpTimestamp t.systemTime = false ∧
          s' = m)) := by
  obtain ⟨m, hm, hu⟩ := bind_eq_ok.1 h
  refine ⟨m, hm, ?_⟩
  unfold update at hu
  split_ifs at hu with hdue
  · exact .inl ⟨hdue, hu⟩
  · exact .inr ⟨by simpa using hdue, (Except.ok.inj hu).symm⟩

variable [IsStrictOrderedRing K]

theorem StatsInUse.popped {queue : MessageQueue.Stats K} (h : StatsInUse env.platform queue)
    (mqSize : Nat) (message : EventMessage) (currentTime : Int) :
    Ends (StatsInUse env.platform) NotThrown (queue.popped env.platform mqSize message currentTime) :=
  (Gauge.set_ends h.size _ _).bind fun _ hsize =>
    (Counter.changed_ends h.popCount _ _).bind fun _ hpop =>
      (Gauge.set_ends h.messageWaitTime _ _).bind fun _ hwait => ⟨hsize, hwait, hpop⟩

theorem Inv.take (h : Inv env s) (found : Found) :
    Ends (Inv env) (ThrownUnless (Internal.Creates env cfg)) (s.take env cfg found) := by
  cases found with
  | message message sur currentTime mqSize =>
    refine (thrownUnless (h.queue.popped mqSize message currentTime)).bind fun queue hqueue => ?_
    exact (h.internal.processEventMessage sur).bind fun internal hinternal =>
      ⟨hinternal, hqueue, h.dumpTime⟩
  | nothing => exact h
  | empty now => exact ⟨h.internal, h.queue, h.dumpTime⟩

theorem Inv.initialized {internalNow queueNow : Int} (h : initialized env internalNow queueNow = .ok s) :
    Inv env s := by
  obtain ⟨metricsDump, hdump, h⟩ := bind_eq_ok.1 h
  obtain ⟨internal, hinternal, h⟩ := bind_eq_ok.1 h
  obtain ⟨queue, hqueue, h⟩ := bind_eq_ok.1 h
  cases h
  refine ⟨Internal.Inv.initialized hinternal, ?_, ?_⟩
  · have hends : Ends (StatsInUse env.platform) (fun _ => True)
        (MessageQueue.Stats.initialized env.platform queueNow) := by
      refine ((Gauge.new_returnsIff _).ends.mono_fault fun _ _ => trivial).bind fun size hsize => ?_
      refine ((Gauge.set_ends hsize 0 queueNow).mono_fault fun _ _ => trivial).bind fun size hsize => ?_
      refine ((Gauge.new_returnsIff _).ends.mono_fault fun _ _ => trivial).bind fun wait hwait => ?_
      exact ((Counter.new_returnsIff _).ends.mono_fault fun _ _ => trivial).bind fun pop hpop =>
        ⟨hsize, hwait, hpop⟩
    exact hends.of_ok hqueue
  · have hends : Ends (fun dump : MetricsDump K =>
        dump.dumpTime.values.InUse env.platform MetricsDump.dumpTimeOpts.values) (fun _ => True)
        (MetricsDump.initialized env) :=
      ((Gauge.new_returnsIff _).ends.mono_fault fun _ _ => trivial).bind fun _ hdumpTime => hdumpTime
    exact hends.of_ok hdump

omit [IsStrictOrderedRing K] in
/-- In use, the metrics can be brought up to date. -/
theorem updateMetrics_of_inv {internal : Internal K} (h : internal.Inv env) (t : Int) :
    internal.updateMetrics env t = .ok { internal with
      metricsMap := Internal.mapMetrics (Internal.updateMetric env t) internal.metricsMap } := by
  unfold Internal.updateMetrics
  rw [if_neg]
  intro hany
  obtain ⟨entry, hentry, hnull⟩ := List.any_eq_true.1 hany
  rw [(h.metrics entry hentry).isNull, Bool.and_false] at hnull
  cases hnull

theorem Inv.of_take {found : Found} (h : Inv env s) (hs : s.take env cfg found = .ok s') : Inv env s' :=
  Ends.of_ok (h.take found) hs

theorem Inv.refreshed (h : Inv env s) (systemTime internalTime : Int) :
    Internal.Inv env (s.refreshed env systemTime internalTime) := by
  have hmetrics : Ends (Internal.Inv env) _ (s.internal.step env .default (.updateMetrics internalTime)) :=
    h.internal.step _
  have hupdated := hmetrics.of_ok (updateMetrics_of_inv h.internal internalTime)
  have hstats : Ends (Internal.Inv env) _ (Internal.step env .default _ (.updateStats systemTime)) := hupdated.step _
  exact hstats.of_ok rfl

variable (cfg) in
/-- **A dump never fails**: no pointer that it follows is null, and
`stats::dump_time` takes every value. -/
theorem Inv.publish (h : Inv env s) (systemTime internalTime : Int) (readings : MetricsDump.Readings) :
    ∃ s', s.publish env cfg systemTime internalTime readings = .ok s' ∧ Inv env s' := by
  have hinv := h.refreshed systemTime internalTime
  have hdumpTime := h.dumpTime.updateTime systemTime
  obtain ⟨dumpTime, hset⟩ : ∃ dumpTime, (s.metricsDump.dumpTime.updateStatistics env.platform systemTime).set
      env.platform (MetricsDump.elapsed env readings) readings.dumpEndTime = .ok dumpTime :=
    Internal.set_of_not_histogram hdumpTime (by decide +kernel) _ _
  have hinUse := (Gauge.set_ends hdumpTime _ _).of_ok hset
  have hcreate : MetricsDump.createDump env cfg.metricsDumpOpts.interval (s.refreshed env systemTime internalTime)
      (s.queue.update env.platform systemTime) _ readings = .ok (_, dumpTime) :=
    MetricsDump.createDump_ok.2 ⟨fun entry hentry => (hinv.metrics entry hentry).isNull, hset, rfl⟩
  exact ⟨_, bind_eq_ok.2 ⟨_, updateMetrics_of_inv h.internal internalTime,
    bind_eq_ok.2 ⟨_, hcreate, rfl⟩⟩, hinv, h.queue.update systemTime, hinUse⟩

/-- A turn fails only at its message. -/
theorem Inv.turn (h : Inv env s) (t : Turn) :
    Ends (Inv env) (ThrownUnless (Internal.Creates env cfg)) (s.turn env cfg t) := by
  refine (h.take t.found).bind fun m hm => ?_
  unfold update
  split_ifs
  · obtain ⟨s', hs', hI⟩ := hm.publish cfg t.systemTime m.lastMessageTimestamp t.readings
    rw [hs']
    exact hI
  · exact hm

theorem Inv.of_turn {t : Turn} (h : Inv env s) (hs : s.turn env cfg t = .ok s') : Inv env s' :=
  Ends.of_ok (h.turn t) hs

theorem RunsTo.inv {turns : List Turn} (h : RunsTo env cfg turns s) : Inv env s := by
  obtain ⟨_, _, s₀, h₀, hrun⟩ := h
  exact (run_ends (fun _ t hI => hI.turn t) turns (Inv.initialized h₀)).of_ok hrun

/-- **The thread fails only at a message.** In every state it reaches a dump can
be made, whatever the clock says; a turn that fails does so as it takes its
message; and where everything that can be created is, it is never with an
exception. -/
theorem fails_only_at_messages (h : RunsTo env cfg turns s) :
    (∀ systemTime internalTime readings, ∃ s', s.update env cfg systemTime internalTime readings = .ok s') ∧
    (∀ t e, s.turn env cfg t = .error e → s.take env cfg t.found = .error e) ∧
    (Internal.Creates env cfg → ∀ t e, s.turn env cfg t = .error e → NotThrown e) := by
  have hupdate : ∀ {s : Processor K}, Inv env s → ∀ systemTime internalTime readings,
      ∃ s', s.update env cfg systemTime internalTime readings = .ok s' := by
    intro s hI systemTime internalTime readings
    unfold update
    split_ifs
    · obtain ⟨s', hs', -⟩ := hI.publish cfg systemTime internalTime readings
      exact ⟨s', hs'⟩
    · exact ⟨s, rfl⟩
  refine ⟨hupdate h.inv, fun t e he => ?_, fun hc t e he => ?_⟩
  · rcases bind_eq_error.1 he with htake | ⟨m, hm, hfail⟩
    · exact htake
    · obtain ⟨s', hs'⟩ := hupdate (h.inv.of_take hm) t.systemTime m.lastMessageTimestamp t.readings
      rw [hs'] at hfail
      cases hfail
  · exact (h.inv.turn t).of_error he hc

theorem fails_only_at_messages_sample :
    ∃ s : Processor ℚ, RunsTo Internal.sampleEnvironment Config.default sampleTurns s ∧
      ∃ s', s.update Internal.sampleEnvironment Config.default 2000000000 0 ⟨0, 0, 0⟩ = .ok s' := by
  obtain ⟨s₀, s, h₀, hs⟩ := exists_run_sampleTurns
  exact ⟨s, ⟨1, 1, s₀, h₀, hs⟩, (fails_only_at_messages ⟨1, 1, s₀, h₀, hs⟩).1 _ _ _⟩

end Processor

end Handystats
