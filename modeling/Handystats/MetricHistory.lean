/-
Each name has its own history.

`metrics_map` is a store by names: a message is an event for the metric under
its name, `update_metrics` is one for all of them. So messages to different
names may change places (`names_commute`). And what a metric holds for good,
its `lasting` part, is made by its messages alone: `update_metrics` moves the
windows and nothing else (`history_lasting`).
-/
import Handystats.EventKinds
import Handystats.Library.Keyed
import Handystats.MetricRelation

namespace Handystats

open Runs

variable {K : Type} [Field K] [LinearOrder K] {env : Environment K} {cfg : Config}

/-- The message but for its `event_data`. -/
def EventMessage.butData (message : EventMessage) : EventMessage := { message with eventData := 0 }

theorem EventMessage.eq_of_butData {a b : EventMessage} (h : a.butData = b.butData)
    (hdata : a.eventData = b.eventData) : a = b := by
  cases a
  cases b
  simp only [butData, EventMessage.mk.injEq] at h hdata ⊢
  exact ⟨h.1, h.2.1, h.2.2.1, h.2.2.2.1, hdata⟩

/-- What a message brings to the metric under its name. -/
abbrev Input := EventMessage × Surroundings

namespace Internal

variable {s s' s₀ : Internal K} {a : Action} {actions : List Action} {name : String}

/-! ## The map as a store -/

/-- What a message makes of the metric that is found, if there is one. -/
def handle (env : Environment K) (cfg : Config) (found : Option (MetricPtr K)) (input : Input) :
    Except Fault (MetricPtr K) := do
  let found := found.getD .default
  let metricPtr ← (if found.isNull then newMetric env cfg input.1 else .ok found)
  let (metricPtr, _) ← processMetric env cfg input.2.heap metricPtr input.1
  .ok metricPtr

/-- The map, by names. -/
def store (s : Internal K) : Keyed.Store String (MetricPtr K) := fun name => s.metricsMap.lookup name

/-- What an action is to the map; `stats::update` is nothing. -/
def Action.event? : Action → Option (Keyed.Event String Input Int)
  | .processEventMessage message sur => some (.one message.destinationName (message, sur))
  | .updateMetrics t => some (.all t)
  | .updateStats _ => none

/-- The events of these actions. -/
def events (actions : List Action) : List (Keyed.Event String Input Int) := actions.filterMap Action.event?

omit [Field K] [LinearOrder K] in
theorem store_of_insert {metricPtr : MetricPtr K} (h : s'.metricsMap = s.metricsMap.insert name metricPtr) :
    s'.store = Function.update s.store name (some metricPtr) := by
  funext other
  by_cases hname : other = name
  · rw [hname, Function.update_self, store, h, AList.lookup_insert]
  · rw [Function.update_of_ne hname, store, h, AList.lookup_insert_ne hname]
    rfl

theorem step_store (h : step env cfg s a = .ok s') :
    run (Keyed.step (handle env cfg) (updateMetric env)) s.store (events [a]) = .ok s'.store := by
  cases a with
  | processEventMessage message sur =>
    obtain ⟨metricPtr, r, hptr, hr, hmap, -⟩ := processEventMessage_ok h
    refine run_singleton_ok.2 (bind_eq_ok.2 ⟨r.1, ?_, ?_⟩)
    · exact bind_eq_ok.2 ⟨metricPtr, hptr, bind_eq_ok.2 ⟨r, hr, rfl⟩⟩
    · rw [store_of_insert hmap]
  | updateMetrics t =>
    refine run_singleton_ok.2 (congrArg Except.ok ?_)
    unfold step Internal.updateMetrics at h
    split_ifs at h
    obtain rfl := Except.ok.inj h
    funext name
    exact (lookup_mapMetrics _ _ _).symm
  | updateStats t =>
    obtain rfl := Except.ok.inj h
    rfl

theorem events_cons (a : Action) (actions : List Action) : events (a :: actions) = events [a] ++ events actions := by
  cases h : a.event? <;> simp [events, h]

/-- What a run does to the map. -/
theorem run_store (h : run (step env cfg) s actions = .ok s') :
    run (Keyed.step (handle env cfg) (updateMetric env)) s.store (events actions) = .ok s'.store := by
  induction actions generalizing s with
  | nil =>
    obtain rfl := Except.ok.inj h
    rfl
  | cons a actions ih =>
    obtain ⟨m, ha, hrest⟩ := run_cons_ok.1 h
    rw [events_cons]
    exact run_append_ok.2 ⟨m.store, step_store ha, ih hrest⟩

variable [IsStrictOrderedRing K]

/-- An action returns wherever the map lets it: the library's own gauges take
every value. -/
theorem exists_step_of_store (hI : Inv env s) {m : Keyed.Store String (MetricPtr K)}
    (h : run (Keyed.step (handle env cfg) (updateMetric env)) s.store (events [a]) = .ok m) :
    ∃ s', step env cfg s a = .ok s' ∧ Inv env s' ∧ s'.store = m := by
  have hreturns : ∃ s', step env cfg s a = .ok s' := by
    cases a with
    | processEventMessage message sur =>
      have hevent : Keyed.step (handle env cfg) (updateMetric env) s.store
          (.one message.destinationName (message, sur)) = .ok m := run_singleton_ok.1 h
      obtain ⟨metricPtr, hhandle, -⟩ := bind_eq_ok.1 hevent
      obtain ⟨found, hptr, hhandle⟩ := bind_eq_ok.1 hhandle
      obtain ⟨r, hr, -⟩ := bind_eq_ok.1 hhandle
      exact hI.processes hptr hr
    | updateMetrics t =>
      refine ⟨_, if_neg ?_⟩
      intro hany
      obtain ⟨entry, hentry, hnull⟩ := List.any_eq_true.1 hany
      rw [(hI.metrics entry hentry).isNull, Bool.and_false] at hnull
      cases hnull
    | updateStats t => exact ⟨_, rfl⟩
  obtain ⟨s', hs'⟩ := hreturns
  refine ⟨s', hs', Ends.of_ok (hI.step a) hs', ?_⟩
  exact Except.ok.inj ((step_store hs').symm.trans h)

theorem exists_run_of_store (hI : Inv env s) {m : Keyed.Store String (MetricPtr K)}
    (h : run (Keyed.step (handle env cfg) (updateMetric env)) s.store (events actions) = .ok m) :
    ∃ s', run (step env cfg) s actions = .ok s' ∧ s'.store = m := by
  induction actions generalizing s with
  | nil =>
    obtain rfl := Except.ok.inj h
    exact ⟨s, rfl, rfl⟩
  | cons a actions ih =>
    rw [events_cons] at h
    obtain ⟨next, hfirst, hrest⟩ := run_append_ok.1 h
    obtain ⟨t, ht, hI, rfl⟩ := exists_step_of_store hI hfirst
    obtain ⟨s', hs', hm⟩ := ih hI hrest
    exact ⟨s', run_cons_ok.2 ⟨t, ht, hs'⟩, hm⟩

/-- **Names do not get in each other's way.** Two orders of the same actions in
which each name meets with the same messages and updates in the same order are
as good as each other: they return alike, and leave the same under every name. -/
theorem names_commute (hr : Reachable env cfg s) {others : List Action}
    (h : ∀ name, Keyed.concerning name (events actions) = Keyed.concerning name (events others)) :
    ((∃ s', run (step env cfg) s actions = .ok s') ↔ ∃ s', run (step env cfg) s others = .ok s') ∧
    ∀ s' s'', run (step env cfg) s actions = .ok s' → run (step env cfg) s others = .ok s'' →
      ∀ name, s'.metricsMap.lookup name = s''.metricsMap.lookup name := by
  have hone : ∀ {xs ys : List Action} {s' : Internal K},
      (∀ name, Keyed.concerning name (events xs) = Keyed.concerning name (events ys)) →
      run (step env cfg) s xs = .ok s' → ∃ s'', run (step env cfg) s ys = .ok s'' ∧ s''.store = s'.store :=
    fun hsame hs' => exists_run_of_store hr.inv ((Keyed.run_congr hsame).1 (run_store hs'))
  refine ⟨⟨fun hruns => ?_, fun hruns => ?_⟩, fun s' s'' hs' hs'' name => ?_⟩
  · obtain ⟨s', hs'⟩ := hruns
    obtain ⟨s'', hs'', -⟩ := hone h hs'
    exact ⟨s'', hs''⟩
  · obtain ⟨s', hs'⟩ := hruns
    obtain ⟨s'', hs'', -⟩ := hone (fun name => (h name).symm) hs'
    exact ⟨s'', hs''⟩
  · obtain ⟨t, ht, hstore⟩ := hone h hs'
    obtain rfl := Except.ok.inj (ht.symm.trans hs'')
    exact (congrFun hstore name).symm

omit [IsStrictOrderedRing K] [Field K] [LinearOrder K] in
/-- Two messages to different names may change places. -/
theorem concerning_swap {m m' : EventMessage} (h : m.destinationName ≠ m'.destinationName) (sur sur' : Surroundings)
    (name : String) :
    Keyed.concerning name (events [.processEventMessage m sur, .processEventMessage m' sur']) =
      Keyed.concerning name (events [.processEventMessage m' sur', .processEventMessage m sur]) := by
  by_cases hm : m.destinationName = name
  · have hm' : ¬ m'.destinationName = name := fun heq => h (hm.trans heq.symm)
    simp [events, Action.event?, Keyed.concerning, Keyed.Event.concerns, hm, hm']
  · by_cases hm' : m'.destinationName = name
    all_goals simp [events, Action.event?, Keyed.concerning, Keyed.Event.concerns, hm, hm']

theorem names_commute_sample :
    ∃ s s' s'' : Internal ℚ, Reachable sampleEnvironment Config.default s ∧
      run (step sampleEnvironment Config.default) s
        [.processEventMessage (GaugeEvents.createSetEvent "first" 0 1) ⟨fun _ => none, 0, 0⟩,
          .processEventMessage (GaugeEvents.createSetEvent "second" 0 2) ⟨fun _ => none, 0, 0⟩] = .ok s' ∧
      run (step sampleEnvironment Config.default) s
        [.processEventMessage (GaugeEvents.createSetEvent "second" 0 2) ⟨fun _ => none, 0, 0⟩,
          .processEventMessage (GaugeEvents.createSetEvent "first" 0 1) ⟨fun _ => none, 0, 0⟩] = .ok s'' ∧
      s'.metricsMap.lookup "first" = s''.metricsMap.lookup "first" := by
  obtain ⟨s, h₀, hruns⟩ : ∃ s : Internal ℚ, initialized sampleEnvironment 0 = .ok s ∧
      (run (step sampleEnvironment Config.default) s
        [.processEventMessage (GaugeEvents.createSetEvent "first" 0 1) ⟨fun _ => none, 0, 0⟩,
          .processEventMessage (GaugeEvents.createSetEvent "second" 0 2) ⟨fun _ => none, 0, 0⟩]).toBool = true := by
    decide +kernel
  have hreach : Reachable sampleEnvironment Config.default s := ⟨0, s, [], h₀, rfl⟩
  have hnames : (GaugeEvents.createSetEvent "first" 0 1).destinationName ≠
      (GaugeEvents.createSetEvent "second" 0 2).destinationName := by decide
  have hcommute := names_commute hreach
    (concerning_swap hnames ⟨fun _ => none, 0, 0⟩ ⟨fun _ => none, 0, 0⟩)
  obtain ⟨s', hs'⟩ := exists_ok_of_toBool hruns
  obtain ⟨s'', hs''⟩ := hcommute.1.1 ⟨s', hs'⟩
  exact ⟨s, s', s'', hreach, hs', hs'', hcommute.2 s' s'' hs' hs'' "first"⟩

end Internal

/-! ## What lasts -/

namespace Statistics

variable {pf : Platform K} {a b a' b' : Statistics K}

/-- The statistics without those of the window, and without its time. -/
def lasting (st : Statistics K) : Statistics K :=
  { st with movingCount := 0, movingSum := 0, histogram := [], timestamp := timePointZero, rate := 0 }

theorem updateTime_lasting (st : Statistics K) (t : Int) : (st.updateTime pf t).lasting = st.lasting := by
  rw [updateTime_eq]
  rfl

/-- What lasts after a value was taken in, from what lasted before. -/
theorem updated_lasting (st : Statistics K) (v : K) (t : Int) (hist : Histogram K) :
    (st.updated pf v t hist).lasting = (st.lasting.updated pf v t []).lasting := rfl

theorem update_lasting {v : K} {t : Int} (h : a.lasting = b.lasting) (ha : a.update pf v t = .ok a')
    (hb : b.update pf v t = .ok b') : a'.lasting = b'.lasting := by
  obtain ⟨hist, -, rfl⟩ := update_ok.1 ha
  obtain ⟨hist', -, rfl⟩ := update_ok.1 hb
  rw [updated_lasting a, updated_lasting b, h]

end Statistics

namespace MetricPtr

variable {pf : Platform K} {p q : MetricPtr K}

/-- What the metric holds for good: its type and value, its instances and all
statistics but those of the window. -/
def lasting (metricPtr : MetricPtr K) : MetricPtr K := metricPtr.mapStatistics Statistics.lasting

/-- The same lasts of the statistics. -/
def LastsAs (a b : Statistics K) : Prop := a.lasting = b.lasting

theorem fed_lastsAs (u : Int) : Fed pf u (LastsAs (K := K)) LastsAs where
  config a b h := by
    have hconfig : a.lasting.config = b.lasting.config := by rw [show a.lasting = b.lasting from h]
    exact hconfig
  kept _ _ h := h
  update _ _ _ _ _ _ h _ ha hb := Statistics.update_lasting h ha hb

omit [LinearOrder K] in
theorem Related.lasting_eq (h : Related LastsAs p q) : p.lasting = q.lasting :=
  h.mapStatistics_eq fun _ _ hab => hab

theorem Related.updateMetric_lastsAs (h : Related LastsAs p q) (t : Int) :
    Related LastsAs (Internal.updateMetric env t p) q := by
  rw [updateMetric_eq]
  exact h.mapStatistics_left (fun a b hab => (Statistics.updateTime_lasting a t).trans hab)
    fun st _ => Statistics.updateTime_lasting st t

end MetricPtr

namespace Internal

open MetricPtr

/-- Under two names there is nothing, or metrics of this type of which the same
lasts. -/
def SameLasting (type : MetricIndex) (v w : Option (MetricPtr K)) : Prop :=
  (v = none ∧ w = none) ∨ ∃ p q, v = some p ∧ w = some q ∧ p.which = type ∧ Related LastsAs p q

/-- The same message for a metric of this type; but an attribute's says what
value its pointer is to. -/
structure SameInput (type : MetricIndex) (i j : Input) : Prop where
  destination : i.1.destinationType = type
  message : i.1.butData = j.1.butData
  data : type ≠ .attribute → i.1.eventData = j.1.eventData
  value : type = .attribute → i.1.eventType = AttributeEvents.set →
    i.2.heap i.1.eventData = j.2.heap j.1.eventData

omit [LinearOrder K] in
theorem SameLasting.lasting_eq {type : MetricIndex} {v w : Option (MetricPtr K)} (h : SameLasting type v w) :
    v.map MetricPtr.lasting = w.map MetricPtr.lasting := by
  rcases h with ⟨rfl, rfl⟩ | ⟨p, q, rfl, rfl, -, hpq⟩
  · rfl
  · exact congrArg some hpq.lasting_eq

omit [LinearOrder K] in
theorem SameLasting.symm {type : MetricIndex} {v w : Option (MetricPtr K)} (h : SameLasting type v w) :
    SameLasting type w v := by
  rcases h with ⟨hv, hw⟩ | ⟨p, q, hv, hw, htype, hpq⟩
  · exact .inl ⟨hw, hv⟩
  · refine .inr ⟨q, p, hw, hv, ?_, hpq.symm fun _ _ hab => hab.symm⟩
    rw [← htype]
    cases hpq <;> rfl

theorem SameLasting.refresh {type : MetricIndex} {v w : Option (MetricPtr K)} (h : SameLasting type v w) (t : Int) :
    SameLasting type (v.map (updateMetric env t)) w := by
  rcases h with ⟨rfl, rfl⟩ | ⟨p, q, rfl, rfl, htype, hpq⟩
  · exact .inl ⟨rfl, rfl⟩
  · exact .inr ⟨_, q, rfl, rfl, (updateMetric_which p t).trans htype, hpq.updateMetric_lastsAs t⟩

/-- Which metric is made has nothing to do with `event_data`. -/
theorem newMetric_butData (message : EventMessage) : newMetric env cfg message.butData = newMetric env cfg message :=
  rfl

theorem SameInput.newMetric_eq {type : MetricIndex} {i j : Input} (h : SameInput type i j) :
    newMetric env cfg i.1 = newMetric env cfg j.1 := by
  rw [← newMetric_butData i.1, h.message, newMetric_butData]

/-- An attribute is set to the value, wherever that is. -/
theorem AttributeEvents.processEvent_congr {heap heap' : AttributeHeap} {metric : Attribute}
    {message message' : EventMessage} (htype : message.eventType = message'.eventType)
    (hvalue : message.eventType = AttributeEvents.set → heap message.eventData = heap' message'.eventData) :
    AttributeEvents.processEvent heap metric message = AttributeEvents.processEvent heap' metric message' := by
  unfold AttributeEvents.processEvent AttributeEvents.processSetEvent
  rw [← htype]
  by_cases hset : message.eventType = AttributeEvents.set
  · rw [hvalue hset]
  · rw [if_neg hset, if_neg hset]

/-- The metric that is found, or made for the message. -/
theorem SameLasting.found {type : MetricIndex} {v w : Option (MetricPtr K)} {i j : Input} {p q : MetricPtr K}
    (h : SameLasting type v w) (hij : SameInput type i j)
    (hp : (if (v.getD .default).isNull then newMetric env cfg i.1 else .ok (v.getD .default)) = .ok p)
    (hq : (if (w.getD .default).isNull then newMetric env cfg j.1 else .ok (w.getD .default)) = .ok q) :
    p.which = type ∧ Related LastsAs p q := by
  rw [← hij.newMetric_eq] at hq
  have hnew : ∀ {m : MetricPtr K}, newMetric env cfg i.1 = .ok m → m.which = type := by
    intro m hm
    rw [← hij.destination]
    exact ((newMetric_returnsIff env cfg i.1).ends.of_ok hm).2
  have hold : v.getD .default = .default ∧ w.getD .default = .default ∨
      (v.getD .default).which = type ∧ Related LastsAs (v.getD .default) (w.getD .default) := by
    rcases h with ⟨rfl, rfl⟩ | ⟨p, q, rfl, rfl, hwhich, hpq⟩
    · exact .inl ⟨rfl, rfl⟩
    · exact .inr ⟨hwhich, hpq⟩
  rcases hold with ⟨hv, hw⟩ | ⟨hwhich, hpq⟩
  · rw [hv] at hp
    rw [hw] at hq
    obtain rfl := Except.ok.inj (hp.symm.trans hq)
    exact ⟨hnew hp, .same _⟩
  · rw [← hpq.isNull] at hq
    split_ifs at hp hq
    · obtain rfl := Except.ok.inj (hp.symm.trans hq)
      exact ⟨hnew hp, .same _⟩
    · rw [← Except.ok.inj hp, ← Except.ok.inj hq]
      exact ⟨hwhich, hpq⟩

theorem SameLasting.handle {type : MetricIndex} {v w : Option (MetricPtr K)} {i j : Input} {p q : MetricPtr K}
    (h : SameLasting type v w) (hij : SameInput type i j) (hp : handle env cfg v i = .ok p)
    (hq : handle env cfg w j = .ok q) : SameLasting type (some p) (some q) := by
  obtain ⟨found, hfound, hp⟩ := bind_eq_ok.1 hp
  obtain ⟨r, hr, hp⟩ := bind_eq_ok.1 hp
  obtain ⟨found', hfound', hq⟩ := bind_eq_ok.1 hq
  obtain ⟨r', hr', hq⟩ := bind_eq_ok.1 hq
  obtain rfl := Except.ok.inj hp
  obtain rfl := Except.ok.inj hq
  obtain ⟨hwhich, hrelated⟩ := h.found hij hfound hfound'
  refine .inr ⟨r.1, r'.1, rfl, rfl, (processMetric_which hr).trans hwhich, ?_⟩
  by_cases htype : type = .attribute
  · -- The values are the same, wherever they are.
    have hsame : processMetric env cfg i.2.heap found i.1 = processMetric env cfg j.2.heap found j.1 := by
      have heventType : i.1.eventType = j.1.eventType := by
        change i.1.butData.eventType = j.1.butData.eventType
        rw [hij.message]
      rcases found with _ | _ | _ | (_ | attr)
      case attribute.none => rfl
      case attribute.some =>
        unfold processMetric
        dsimp only
        rw [AttributeEvents.processEvent_congr heventType (hij.value htype)]
      all_goals
        rw [htype] at hwhich
        cases hwhich
    have hfound : found' = found := by
      cases hrelated with
      | same => rfl
      | _ =>
        rw [htype] at hwhich
        cases hwhich
    rw [hfound, ← hsame] at hr'
    obtain rfl := Except.ok.inj (hr.symm.trans hr')
    exact .same _
  · have hmessage : i.1 = j.1 := EventMessage.eq_of_butData hij.message (hij.data htype)
    rw [← hmessage] at hr'
    refine processMetric_related (fed_lastsAs _) hrelated (fun hattribute => ?_) hr hr'
    exact absurd (hwhich.symm.trans hattribute) htype

/-- **What lasts is made by the messages.** Two histories of a name with the same
messages, whatever updates fall between them, leave the same for good. -/
theorem history_lasting {type : MetricIndex} {xs ys : List (Keyed.Event String Input Int)}
    {v v' w w' : Option (MetricPtr K)} (h : SameLasting type v w)
    (hinputs : List.Forall₂ (SameInput type) (Keyed.inputs xs) (Keyed.inputs ys))
    (hv : run (Keyed.entryStep (Internal.handle env cfg) (updateMetric env)) v xs = .ok v')
    (hw : run (Keyed.entryStep (Internal.handle env cfg) (updateMetric env)) w ys = .ok w') :
    SameLasting type v' w' :=
  Keyed.history_rel (fun _ _ _ _ _ _ hR hij hp hq => hR.handle hij hp hq) (fun _ _ t hR => hR.refresh t)
    (fun _ _ t hR => (hR.symm.refresh t).symm) h hinputs hv hw

end Internal

end Handystats
