/-
Nobody can tell from the statistics whether, and how often, dumps are made.

A dump brings every metric up to a time of its own (`update_metrics`). Two
metrics are `Alike` from a time on if they show the same at every later time,
whatever their bins; fading further keeps them alike, and so does a message
that is not older. In runs whose messages are not older than
`last_message_timestamp`, metrics of the same name are alike, then, under any
two dump intervals (`dumps_unobservable`).

The bins are left out: the histogram lets a new bin in before it fades, so
they do depend on the moment.
-/
import Handystats.FadingPaths
import Handystats.MetricRelation
import Handystats.ProcessorFacts

namespace Handystats

open Runs

variable {K : Type} [Field K] [LinearOrder K] {env : Environment K} {cfg : Config} {pf : Platform K}

/-! ## Statistics -/

namespace Statistics

variable {a b a' b' st st' : Statistics K}

/-- The statistics without their bins. -/
def butHistogram (st : Statistics K) : Statistics K := { st with histogram := [] }

/-- From the time `t` on, all but the bins is the same. -/
def AlikeFrom (pf : Platform K) (t : Int) (a b : Statistics K) : Prop :=
  (a.updateTime pf t).butHistogram = (b.updateTime pf t).butHistogram

theorem butHistogram_updateTime (st : Statistics K) (t : Int) :
    (st.butHistogram.updateTime pf t) = (st.updateTime pf t).butHistogram := by
  rw [updateTime_eq, updateTime_eq]
  ext1
  case histogram => simp [butHistogram, shiftHistogram]
  all_goals rfl

theorem AlikeFrom.of_eq (h : a.butHistogram = b.butHistogram) (t : Int) : AlikeFrom pf t a b := by
  rw [AlikeFrom, ← butHistogram_updateTime, ← butHistogram_updateTime, h]

theorem AlikeFrom.symm {t : Int} (h : AlikeFrom pf t a b) : AlikeFrom pf t b a := Eq.symm h

theorem AlikeFrom.config {t : Int} (h : AlikeFrom pf t a b) : a.config = b.config := by
  have hconfig : (a.updateTime pf t).butHistogram.config = (b.updateTime pf t).butHistogram.config := by
    rw [h]
  have hkept : ∀ st : Statistics K, (st.updateTime pf t).config = st.config := fun st => updateTime_config t
  rw [← hkept a, ← hkept b]
  exact hconfig

/-- Without its bins an object takes every value in. -/
theorem update_butHistogram (st : Statistics K) (v : K) (t : Int) :
    ∃ histogram, st.butHistogram.update pf v t = .ok (st.updated pf v t histogram) := by
  have hone : ∃ histogram, st.butHistogram.updateHistogram pf v t = .ok histogram := by
    unfold updateHistogram
    split_ifs with hbins
    · exact ⟨_, rfl⟩
    · have hlength : (st.butHistogram.insertAndShift pf v t).length ≤ st.butHistogram.config.histogramBins := by
        rw [insertAndShift, shiftHistogram, if_neg hbins, List.length_map]
        refine (List.length_insertIdx_le_succ ..).trans ?_
        exact Nat.one_le_iff_ne_zero.2 hbins
      exact ⟨_, by rw [reduceHistogram, if_pos hlength]⟩
  by_cases hcomputed : st.butHistogram.computed .histogram = true
  · obtain ⟨histogram, hhistogram⟩ := hone
    exact ⟨histogram, update_ok.2 ⟨histogram, by rw [if_pos hcomputed, hhistogram], rfl⟩⟩
  · exact ⟨[], update_ok.2 ⟨[], by rw [if_neg hcomputed]; rfl, rfl⟩⟩

variable [IsStrictOrderedRing K]

theorem AlikeFrom.mono {t u : Int} (h : AlikeFrom pf t a b) (htu : t ≤ u) : AlikeFrom pf u a b := by
  have hfaded : ∀ st : Statistics K, (st.updateTime pf u).butHistogram =
      ((st.updateTime pf t).butHistogram).updateTime pf u := by
    intro st
    rw [butHistogram_updateTime, updateTime_updateTime, max_eq_right htu]
  rw [AlikeFrom, hfaded, hfaded, h]

/-- Bringing one of them up to a time that is not later shows no difference. -/
theorem updateTime_alikeFrom (st : Statistics K) {t u : Int} (hut : u ≤ t) :
    AlikeFrom pf t (st.updateTime pf u) st := by
  rw [AlikeFrom, updateTime_updateTime, max_eq_right hut]

/-- A value is taken in as well after an `update_time` that is not later. -/
theorem updated_updateTime (hM : 0 < st.interval pf) {t u : Int} (htu : t ≤ u) (v : K) (hist hist' : Histogram K) :
    ((st.updateTime pf t).updated pf v u hist).butHistogram = (st.updated pf v u hist').butHistogram := by
  obtain ⟨_, hfaded⟩ : ∃ hist, step pf (st.updateTime pf t).butHistogram (.update v u) = .ok _ :=
    update_butHistogram (st.updateTime pf t) v u
  obtain ⟨_, hplain⟩ : ∃ hist, step pf st.butHistogram (.update v u) = .ok _ := update_butHistogram st v u
  rw [← butHistogram_updateTime] at hfaded
  have hbut : 0 < st.butHistogram.interval pf := hM
  have hsame := updateTime_then_step hbut htu hfaded hplain
  obtain ⟨hconfig, hvalue, hcount, hsum, hrate, htimestamp, hdata⟩ := hsame
  ext1
  case config => exact hconfig
  case value => exact hvalue
  case movingCount => exact hcount
  case movingSum => exact hsum
  case rate => exact hrate
  case timestamp => exact htimestamp
  case dataTimestamp => exact hdata
  all_goals simp [butHistogram, updated, updateTime_eq, computed]

/-- **A value makes alike objects the same**, but for the bins. -/
theorem AlikeFrom.update {t u : Int} {v : K} (h : AlikeFrom pf t a b) (hM : 0 < a.interval pf) (htu : t ≤ u)
    (ha : a.update pf v u = .ok a') (hb : b.update pf v u = .ok b') : a'.butHistogram = b'.butHistogram := by
  have hM' : 0 < b.interval pf := by rwa [Statistics.interval, ← h.config]
  obtain ⟨hist, -, rfl⟩ := update_ok.1 ha
  obtain ⟨hist', -, rfl⟩ := update_ok.1 hb
  rw [← updated_updateTime hM htu v [] hist, ← updated_updateTime hM' htu v [] hist']
  exact congrArg (fun st => (st.updated pf v u []).butHistogram) h

end Statistics

/-! ## Metrics -/

namespace MetricPtr

/-- The statistics show the same from the time `t` on, over a window that has a
length. -/
def AlikeFrom (pf : Platform K) (t : Int) (a b : Statistics K) : Prop := 0 < a.interval pf ∧ a.AlikeFrom pf t b

/-- From the time `t` on, the metrics show the same, but for the bins. -/
def Alike (pf : Platform K) (t : Int) : MetricPtr K → MetricPtr K → Prop := Related (AlikeFrom pf t)

/-- What the metric shows, but for the bins. -/
def butHistogram (metricPtr : MetricPtr K) : MetricPtr K := metricPtr.mapStatistics Statistics.butHistogram

/-- The metric's window, if it has one, has a length. -/
def Windowed (pf : Platform K) (options : Option MetricOptions) : Prop :=
  ∀ o, options = some o → 0 < pf.clock.count o.values.movingInterval

variable {t u : Int} {p q : MetricPtr K}

theorem AlikeFrom.config {a b : Statistics K} (h : AlikeFrom pf t a b) : a.config = b.config := h.2.config

theorem Alike.options (h : Alike pf t p q) : p.options = q.options :=
  Related.options (fun _ _ => AlikeFrom.config) h

theorem Alike.symm (h : Alike pf t p q) : Alike pf t q p := by
  refine Related.symm (fun a b hab => ⟨?_, hab.2.symm⟩) h
  rw [Statistics.interval, ← hab.config]
  exact hab.1

omit [Field K] in
theorem windowed_statistics (hw : Windowed pf p.options) {st : Statistics K} (hst : p.statistics = some st) :
    0 < st.interval pf := by
  rcases p with (_ | counter) | (_ | gauge) | (_ | timer) | metric
  case counter.some =>
    obtain rfl := Option.some.inj hst
    exact hw _ rfl
  case gauge.some =>
    obtain rfl := Option.some.inj hst
    exact hw _ rfl
  case timer.some =>
    obtain rfl := Option.some.inj hst
    exact hw _ rfl
  all_goals cases hst

variable [IsStrictOrderedRing K]

theorem Alike.mono (h : Alike pf t p q) (htu : t ≤ u) : Alike pf u p q :=
  Related.mono (fun _ _ hab => ⟨hab.1, hab.2.mono htu⟩) h

/-- Metrics that are alike are shown the same. -/
theorem Alike.shown (h : Alike env.platform t p q) (htu : t ≤ u) :
    (Internal.updateMetric env u p).butHistogram = (Internal.updateMetric env u q).butHistogram := by
  rw [updateMetric_eq, updateMetric_eq, butHistogram, butHistogram, mapStatistics_mapStatistics,
    mapStatistics_mapStatistics]
  exact (h.mono htu).mapStatistics_eq fun _ _ hab => hab.2

/-- A dump at a time that is not later leaves a metric alike. -/
theorem Alike.updateMetric_left (h : Alike env.platform t p q) (hw : Windowed env.platform p.options)
    (hut : u ≤ t) : Alike env.platform t (Internal.updateMetric env u p) q := by
  rw [updateMetric_eq]
  refine Related.mapStatistics_left (fun a b hab => ⟨?_, ?_⟩) (fun st hst => ⟨?_, ?_⟩) h
  · rw [Statistics.updateTime_interval]
    exact hab.1
  · exact (Statistics.updateTime_alikeFrom a hut).trans hab.2
  · rw [Statistics.updateTime_interval]
    exact windowed_statistics hw hst
  · exact Statistics.updateTime_alikeFrom st hut

/-- A value leaves nothing of what went before but the statistics without their
bins. -/
theorem fed_alikeFrom (htu : t ≤ u) : Fed pf u (AlikeFrom pf t) (AlikeFrom pf u) where
  config _ _ h := h.config
  kept _ _ h := ⟨h.1, h.2.mono htu⟩
  update a b a' b' v last h hlast ha hb := by
    refine ⟨?_, .of_eq (h.2.update h.1 (htu.trans hlast) ha hb) u⟩
    rw [Statistics.interval, Statistics.update_config ha]
    exact h.1

end MetricPtr

/-! ## Runs -/

/-- Whatever metric is made, its window has a length. -/
structure Windows (env : Environment K) (cfg : Config) : Prop where
  ofType : ∀ type, MetricPtr.Windowed env.platform (typeOptions cfg type)
  overridden : ∀ name type options,
    overriddenOptions cfg (selectPattern env.fnmatch cfg.patternOpts name) type = .ok options →
      MetricPtr.Windowed env.platform options

namespace Processor

open MetricPtr

variable {s s' m m' s₀ : Processor K} {t : Turn} {turns : List Turn}

/-- The same library, but for its dumps. -/
structure SameButDumps (env : Environment K) (s s' : Processor K) : Prop where
  lastMessageTimestamp : s.lastMessageTimestamp = s'.lastMessageTimestamp
  alike : ∀ name, Alike env.platform s.lastMessageTimestamp (s.internal.metric name) (s'.internal.metric name)
  windowed : ∀ name, Windowed env.platform (s.internal.metric name).options

/-- The message that a turn takes. -/
def Turn.message? (t : Turn) : Option EventMessage :=
  match t.found with
  | .message message _ _ _ => some message
  | _ => none

/-- A message that is taken is not older than `last_message_timestamp`: than the
messages before it, nor than the clock when the queue was found empty. -/
def InOrder (s : Processor K) (t : Turn) : Prop :=
  ∀ message ∈ Turn.message? t, s.lastMessageTimestamp ≤ message.timestamp

instance (s : Processor K) (t : Turn) : Decidable (InOrder s t) :=
  inferInstanceAs (Decidable (∀ message ∈ Turn.message? t, s.lastMessageTimestamp ≤ message.timestamp))

variable [IsStrictOrderedRing K]

omit [Field K] [LinearOrder K] [IsStrictOrderedRing K] in
theorem metric_mapMetrics (internal : Internal K) {f : MetricPtr K → MetricPtr K} (hf : f .default = .default)
    (name : String) :
    ({ internal with metricsMap := Internal.mapMetrics f internal.metricsMap } : Internal K).metric name =
      f (internal.metric name) := by
  unfold Internal.metric
  rw [Internal.lookup_mapMetrics]
  cases internal.metricsMap.lookup name with
  | none => exact hf.symm
  | some metricPtr => rfl

omit [Field K] [LinearOrder K] [IsStrictOrderedRing K] in
theorem metric_of_insert {internal internal' : Internal K} {name : String} {metricPtr : MetricPtr K}
    (h : internal'.metricsMap = internal.metricsMap.insert name metricPtr) (other : String) :
    internal'.metric other = if other = name then metricPtr else internal.metric other := by
  unfold Internal.metric
  rw [h]
  split_ifs with hname
  · rw [hname, AList.lookup_insert]
    rfl
  · rw [AList.lookup_insert_ne hname]

/-- A dump on one side leaves no difference but itself. -/
theorem SameButDumps.publish {systemTime : Int} {readings : MetricsDump.Readings} (h : SameButDumps env s s')
    (hm : s.publish env cfg systemTime s.lastMessageTimestamp readings = .ok m) : SameButDumps env m s' := by
  obtain ⟨hinternal, -, -, -, -, hlast⟩ := publish_ok hm
  have hmetric : ∀ name, m.internal.metric name =
      Internal.updateMetric env s.lastMessageTimestamp (s.internal.metric name) := by
    intro name
    rw [hinternal]
    exact metric_mapMetrics s.internal rfl name
  refine ⟨hlast.trans h.lastMessageTimestamp, fun name => ?_, fun name => ?_⟩
  · rw [hmetric, hlast]
    exact (h.alike name).updateMetric_left (h.windowed name) le_rfl
  · rw [hmetric, Internal.updateMetric_options]
    exact h.windowed name

omit [IsStrictOrderedRing K] in
theorem SameButDumps.symm (h : SameButDumps env s s') : SameButDumps env s' s := by
  refine ⟨h.lastMessageTimestamp.symm, fun name => ?_, fun name => ?_⟩
  · rw [← h.lastMessageTimestamp]
    exact (h.alike name).symm
  · rw [← (h.alike name).options]
    exact h.windowed name

omit [IsStrictOrderedRing K] in
/-- The metric that a message is handed to has a window with a length. -/
theorem windowed_found (hw : Windows env cfg) {internal : Internal K} {message : EventMessage}
    {metricPtr : MetricPtr K} (h : ∀ name, Windowed env.platform (internal.metric name).options)
    (hfound : (if (internal.metric message.destinationName).isNull then newMetric env cfg message
      else .ok (internal.metric message.destinationName)) = .ok metricPtr) :
    Windowed env.platform metricPtr.options := by
  split_ifs at hfound
  · exact hw.overridden _ _ _ (newMetric_options hfound)
  · rw [← Except.ok.inj hfound]
    exact h message.destinationName

theorem SameButDumps.message (hw : Windows env cfg) {dumpOpts : MetricsDumpConfig} {message : EventMessage}
    {sur : Surroundings} (h : SameButDumps env s s') (ht : s.lastMessageTimestamp ≤ message.timestamp)
    (hm : s.internal.processEventMessage env cfg message sur = .ok m.internal)
    (hm' : s'.internal.processEventMessage env { cfg with metricsDumpOpts := dumpOpts } message sur =
      .ok m'.internal)
    (hlast : m.lastMessageTimestamp = max s.lastMessageTimestamp message.timestamp)
    (hlast' : m'.lastMessageTimestamp = max s'.lastMessageTimestamp message.timestamp) :
    SameButDumps env m m' := by
  obtain ⟨p, r, hp, hr, hmap, -⟩ := Internal.processEventMessage_ok hm
  obtain ⟨q, r', hq, hr', hmap', -⟩ := Internal.processEventMessage_ok hm'
  have hpq : Alike env.platform s.lastMessageTimestamp p q := by
    have hfound := h.alike message.destinationName
    rw [hfound.isNull] at hp
    split_ifs at hp hq
    · obtain rfl := Except.ok.inj (hp.symm.trans hq)
      exact .same _
    · rwa [← Except.ok.inj hp, ← Except.ok.inj hq]
  have hwindowed := windowed_found hw h.windowed hp
  have hnow : m.lastMessageTimestamp = message.timestamp := by
    rw [hlast, max_eq_right ht]
  refine ⟨by rw [hlast, hlast', h.lastMessageTimestamp], fun name => ?_, fun name => ?_⟩
  · rw [metric_of_insert hmap, metric_of_insert hmap', hnow]
    split_ifs
    · exact processMetric_related (fed_alikeFrom ht) hpq (fun _ => rfl) hr hr'
    · exact (h.alike name).mono ht
  · rw [metric_of_insert hmap]
    split_ifs
    · rw [processMetric_options hr]
      split_ifs
      · exact hw.ofType _
      · exact hwindowed
    · exact h.windowed name

theorem SameButDumps.take (hw : Windows env cfg) {dumpOpts : MetricsDumpConfig} (h : SameButDumps env s s')
    (ht : InOrder s t) (hm : s.take env cfg t.found = .ok m)
    (hm' : s'.take env { cfg with metricsDumpOpts := dumpOpts } t.found = .ok m') : SameButDumps env m m' := by
  rcases take_ok hm with ⟨message, sur, currentTime, mqSize, hfound, -, hinternal, -, hlast⟩ |
    ⟨hfound, rfl⟩ | ⟨now, hfound, rfl⟩
  · rw [hfound] at hm'
    obtain ⟨_, -, hm'⟩ := bind_eq_ok.1 hm'
    obtain ⟨internal', hinternal', hm'⟩ := bind_eq_ok.1 hm'
    cases hm'
    exact h.message hw (ht message (by rw [Turn.message?, hfound]; rfl)) hinternal hinternal' hlast rfl
  · rw [hfound] at hm'
    cases hm'
    exact h
  · rw [hfound] at hm'
    cases hm'
    refine ⟨by rw [h.lastMessageTimestamp], fun name => ?_, h.windowed⟩
    exact (h.alike name).mono (le_max_left _ _)

theorem SameButDumps.turn (hw : Windows env cfg) {dumpOpts : MetricsDumpConfig} (h : SameButDumps env s s')
    (ht : InOrder s t) (hm : s.turn env cfg t = .ok m)
    (hm' : s'.turn env { cfg with metricsDumpOpts := dumpOpts } t = .ok m') : SameButDumps env m m' := by
  obtain ⟨taken, htaken, hupdated⟩ := turn_ok hm
  obtain ⟨taken', htaken', hupdated'⟩ := turn_ok hm'
  have hsame := h.take hw ht htaken htaken'
  have hleft : SameButDumps env m taken' := by
    rcases hupdated with ⟨-, hpublish⟩ | ⟨-, rfl⟩
    · exact hsame.publish hpublish
    · exact hsame
  rcases hupdated' with ⟨-, hpublish⟩ | ⟨-, rfl⟩
  · exact (hleft.symm.publish hpublish).symm
  · exact hleft

omit [IsStrictOrderedRing K] in
theorem initialized_metric {internalNow queueNow : Int} (h₀ : initialized env internalNow queueNow = .ok s₀)
    (name : String) : s₀.internal.metric name = .default := by
  obtain ⟨_, -, h₀⟩ := bind_eq_ok.1 h₀
  obtain ⟨internal, hinternal, h₀⟩ := bind_eq_ok.1 h₀
  obtain ⟨_, -, h₀⟩ := bind_eq_ok.1 h₀
  cases h₀
  unfold Internal.metric
  rw [Internal.initialized_metricsMap hinternal]
  rfl

/-- **Dumps cannot be observed.** Two runs of the same turns that differ only in
the dump interval leave every metric with the same type, value, instances and
statistics but for the histogram's bins, at `last_message_timestamp` and at
every later time, where no message is older than that timestamp when it is taken
and the windows have a length. -/
theorem dumps_unobservable {internalNow queueNow : Int} (hw : Windows env cfg) (dumpOpts : MetricsDumpConfig)
    (h₀ : initialized env internalNow queueNow = .ok s₀)
    (horder : Throughout (turn env cfg) s₀ turns fun _ => InOrder)
    (h : run (turn env cfg) s₀ turns = .ok s)
    (h' : run (turn env { cfg with metricsDumpOpts := dumpOpts }) s₀ turns = .ok s') :
    s.lastMessageTimestamp = s'.lastMessageTimestamp ∧
    ∀ name t, s.lastMessageTimestamp ≤ t →
      (Internal.updateMetric env t (s.internal.metric name)).butHistogram =
        (Internal.updateMetric env t (s'.internal.metric name)).butHistogram := by
  have hstart : SameButDumps env s₀ s₀ := by
    refine ⟨rfl, fun _ => .same _, fun name o ho => ?_⟩
    rw [initialized_metric h₀] at ho
    cases ho
  have hsame : SameButDumps env s s' :=
    run_rel_throughout (fun _ _ _ _ _ hR hP hm hm' => hR.turn hw hP hm hm') hstart horder h h'
  exact ⟨hsame.lastMessageTimestamp, fun name t ht => (hsame.alike name).shown ht⟩

theorem Windows.default : Windows Internal.sampleEnvironment Config.default := by
  have hofType : ∀ type, Windowed Internal.sampleEnvironment.platform (typeOptions Config.default type) := by
    intro type o ho
    cases type
    all_goals
      cases ho
    all_goals
      decide +kernel
  refine ⟨hofType, fun name type options hoptions => ?_⟩
  -- No name selects a section.
  have htype : overriddenOptions Config.default none type = .ok (typeOptions Config.default type) := by
    cases type <;> rfl
  obtain rfl := Except.ok.inj (htype.symm.trans hoptions)
  exact hofType type

theorem dumps_unobservable_sample :
    ∃ s s' : Processor ℚ, RunsTo Internal.sampleEnvironment Config.default sampleTurns s ∧
      RunsTo Internal.sampleEnvironment { Config.default with metricsDumpOpts := ⟨⟨0, .msec⟩⟩ } sampleTurns s' ∧
      (Internal.updateMetric Internal.sampleEnvironment s.lastMessageTimestamp
          (s.internal.metric "name")).butHistogram =
        (Internal.updateMetric Internal.sampleEnvironment s.lastMessageTimestamp
          (s'.internal.metric "name")).butHistogram := by
  obtain ⟨s₀, h₀, horder, hrun, hrun'⟩ : ∃ s₀, initialized Internal.sampleEnvironment 1 1 = .ok s₀ ∧
      meets (turn Internal.sampleEnvironment Config.default) (fun s t => decide (InOrder s t)) s₀ sampleTurns = true ∧
      (run (turn Internal.sampleEnvironment Config.default) s₀ sampleTurns).toBool = true ∧
      (run (turn Internal.sampleEnvironment { Config.default with metricsDumpOpts := ⟨⟨0, .msec⟩⟩ }) s₀
        sampleTurns).toBool = true := by
    decide +kernel
  obtain ⟨s, hs⟩ := exists_ok_of_toBool hrun
  obtain ⟨s', hs'⟩ := exists_ok_of_toBool hrun'
  have hsame := dumps_unobservable Windows.default ⟨⟨0, .msec⟩⟩ h₀ (throughout_of_meets horder) hs hs'
  exact ⟨s, s', ⟨1, 1, s₀, h₀, hs⟩, ⟨1, 1, s₀, h₀, hs'⟩, hsame.2 "name" _ le_rfl⟩

end Processor

end Handystats
