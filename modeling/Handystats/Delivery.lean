/-
What arrives at the metrics, in every run of the library as a whole.

`Made` says what the processing thread's data are made of: what it has served,
in that order. So a name to which one measuring point sends has the same
lasting metric however the threads are interleaved and whenever dumps are made
(`schedule_independent`).
-/
import Handystats.PipelineFacts

namespace Handystats

open Runs

variable {K : Type} [Field K] [LinearOrder K] {env : Environment K} {cfg : Config}

/-! ## A turn, to the metrics -/

/-- What the turn brings to the metrics. -/
def Found.inputs : Found → List Input
  | .message m sur _ _ => [(m, sur)]
  | _ => []

namespace Internal

theorem inputs_append (as bs : List Action) :
    Keyed.inputs (events (as ++ bs)) = Keyed.inputs (events as) ++ Keyed.inputs (events bs) := by
  simp [Keyed.inputs, events]

/-- The events that concern a name bring it the messages to it. -/
theorem inputs_concerning (name : String) (actions : List Action) :
    Keyed.inputs (Keyed.concerning name (events actions)) =
      (Keyed.inputs (events actions)).filter (fun input => input.1.destinationName = name) := by
  induction actions with
  | nil => rfl
  | cons a actions ih =>
    rw [events_cons, Keyed.concerning_append]
    simp only [Keyed.inputs, List.filterMap_append, List.filter_append] at ih ⊢
    rw [ih]
    congr 1
    cases a with
    | processEventMessage message sur =>
      by_cases hname : message.destinationName = name
      all_goals simp [events, Action.event?, Keyed.concerning, Keyed.Event.concerns, Keyed.Event.input?, hname]
    | updateMetrics t => rfl
    | updateStats t => rfl

end Internal

namespace Processor

variable {s s' : Processor K} {t : Turn}

/-- What a turn does to the metrics: its message, and the dump. -/
theorem turn_internal (h : s.turn env cfg t = .ok s') :
    ∃ actions, run (Internal.step env cfg) s.internal actions = .ok s'.internal ∧
      Keyed.inputs (Internal.events actions) = t.found.inputs := by
  obtain ⟨m, hm, hcases⟩ := turn_ok h
  have htake : ∃ actions, run (Internal.step env cfg) s.internal actions = .ok m.internal ∧
      Keyed.inputs (Internal.events actions) = t.found.inputs := by
    rcases take_ok hm with ⟨message, sur, _, _, hfound, -, hinternal, -, -⟩ | ⟨hfound, rfl⟩ | ⟨_, hfound, rfl⟩
    · exact ⟨[.processEventMessage message sur], run_singleton_ok.2 hinternal, by rw [hfound]; rfl⟩
    · exact ⟨[], rfl, by rw [hfound]; rfl⟩
    · exact ⟨[], rfl, by rw [hfound]; rfl⟩
  obtain ⟨actions, hactions, hinputs⟩ := htake
  rcases hcases with ⟨-, hpublish⟩ | ⟨-, rfl⟩
  · obtain ⟨internal, hupdate, hrest⟩ := bind_eq_ok.1 hpublish
    obtain ⟨r, -, hrest⟩ := bind_eq_ok.1 hrest
    obtain rfl := Except.ok.inj hrest
    refine ⟨actions ++ [.updateMetrics m.lastMessageTimestamp, .updateStats t.systemTime], ?_, ?_⟩
    · exact run_append_ok.2 ⟨_, hactions, run_cons_ok.2 ⟨internal, hupdate, rfl⟩⟩
    · rw [Internal.inputs_append, hinputs]
      exact List.append_nil _
  · exact ⟨actions, hactions, hinputs⟩

theorem initialized_internal {internalNow queueNow : Int} (h : initialized env internalNow queueNow = .ok s) :
    Internal.initialized env internalNow = .ok s.internal := by
  obtain ⟨metricsDump, -, h⟩ := bind_eq_ok.1 h
  obtain ⟨internal, hinternal, h⟩ := bind_eq_ok.1 h
  obtain ⟨queue, -, h⟩ := bind_eq_ok.1 h
  obtain rfl := Except.ok.inj h
  exact hinternal

end Processor

namespace Pipeline

variable {P M : Type} [DecidableEq P] [DecidableEq M] {traffic : Traffic M} {s s' : State P M K}
variable {a : Action P M} {as : List (Action P M)} {thread : Thread M K}

/-! ## What the thread's data are made of -/

/-- What the metrics are told by a message. -/
structure Told (traffic : Traffic M) (m : M) (input : Input) : Prop where
  message : input.1 = traffic.message m
  value : (traffic.message m).ownsValue = true →
    input.2.heap (traffic.message m).eventData = some (traffic.value m)

/-- The thread has made its data of what it has served, which is the last that
was processed. -/
structure Made (env : Environment K) (traffic : Traffic M) (core : Core.State P M) (thread : Thread M K) :
    Prop where
  served : ∃ past, core.processed = past ++ thread.served
  internal : ∃ now s₀ actions, Internal.initialized env now = .ok s₀ ∧
    run (Internal.step env thread.config) s₀ actions = .ok thread.processor.internal ∧
    List.Forall₂ (Told traffic) thread.served (Keyed.inputs (Internal.events actions))

omit [Field K] [LinearOrder K] [DecidableEq P] in
/-- Where the step does not end a turn, nothing is processed. -/
theorem finished_of_not_endsTurn {core : Core.State P M} (h : endsTurn core .processor = false) :
    finished core .processor = [] := by
  unfold finished
  dsimp only
  split_ifs with hp
  · rcases Core.obtained_cases core with hnone | ⟨m, -, hc, -⟩
    · exact hnone
    · have hconsumed : core.consumed.consumer = .idle := by
        rw [Core.State.consumed, if_neg (by simp [hc]), MessageQueue.SizedState.consume_readSize hc]
      simp [endsTurn, hp, hconsumed] at h
  · rfl

omit [DecidableEq P] in
/-- What a step does to what the thread has. -/
theorem threadStep_cases {thread' : Option (Thread M K)} (h : threadStep env traffic s a = .ok thread') :
    (endsTurn s.core a.action = true ∧ ∃ thread processor, s.thread = some thread ∧
        thread.processor.turn env thread.config ⟨found traffic s a.sur, a.sur.systemTime, a.sur.readings⟩ =
          .ok processor ∧
        thread' = some { thread with processor := processor, served := thread.served ++ s.core.obtained }) ∨
      (a.action = .core ∧ s.core.core = .spawn ∧ ∃ processor,
        Processor.initialized env a.sur.internalNow a.sur.queueNow = .ok processor ∧
        thread' = some ⟨a.sur.config, processor, []⟩) ∨
      (a.action = .core ∧ s.core.core = .join ∧ thread' = none) ∨
      (endsTurn s.core a.action = false ∧ ¬ (a.action = .core ∧ s.core.core = .spawn) ∧ thread' = s.thread) := by
  unfold threadStep at h
  split_ifs at h with hends
  · refine .inl ⟨hends, ?_⟩
    unfold turn at h
    cases hthread : s.thread with
    | none =>
      rw [hthread] at h
      cases h
    | some thread =>
      rw [hthread] at h
      obtain ⟨processor, hturn, h⟩ := bind_eq_ok.1 h
      exact ⟨thread, processor, rfl, hturn, (Except.ok.inj h).symm⟩
  · refine .inr ?_
    split at h
    next haction hcore =>
      obtain ⟨processor, hinit, h⟩ := bind_eq_ok.1 h
      exact .inl ⟨haction, hcore, processor, hinit, (Except.ok.inj h).symm⟩
    next haction hcore => exact .inr (.inl ⟨haction, hcore, (Except.ok.inj h).symm⟩)
    next hspawn _ =>
      exact .inr (.inr ⟨by simpa using hends, fun hboth => hspawn hboth.1 hboth.2, (Except.ok.inj h).symm⟩)

omit [Field K] [LinearOrder K] in
/-- What a turn finds is what was obtained. -/
theorem found_told (hkept : Kept traffic s) (hflow : Core.Flow (createdBy as) s.core) (sur : Surroundings) :
    List.Forall₂ (Told traffic) s.core.obtained (found traffic s sur).inputs := by
  rcases Core.obtained_cases s.core with hnone | ⟨m, hone, -, -⟩
  · have hinputs : (found traffic s sur).inputs = [] := by
      unfold found
      rw [hnone]
      dsimp only
      split_ifs <;> rfl
    rw [hnone, hinputs]
    exact .nil
  · have hinputs : (found traffic s sur).inputs =
        [(traffic.message m, ⟨s.heap, sur.processStartTime, sur.processEndTime⟩)] := by
      unfold found
      rw [hone]
      rfl
    obtain ⟨hcreated, hdone⟩ := hflow.obtained_fresh (m := m) (by simp [hone])
    rw [hone, hinputs]
    exact .cons ⟨rfl, fun howns => hkept.holds m ⟨hcreated, hdone, howns⟩⟩ .nil

theorem Made.turn {processor : Processor K} (h : Made env traffic s.core thread) (hkept : Kept traffic s)
    (hflow : Core.Flow (createdBy as) s.core) {core : Core.State P M}
    (hcore : core.processed = s.core.processed ++ s.core.obtained) {t : Turn} {sur : Surroundings}
    (ht : t.found = found traffic s sur) (hturn : thread.processor.turn env thread.config t = .ok processor) :
    Made env traffic core
      { thread with processor := processor, served := thread.served ++ s.core.obtained } where
  served := by
    obtain ⟨past, hpast⟩ := h.served
    exact ⟨past, by rw [hcore, hpast, List.append_assoc]⟩
  internal := by
    obtain ⟨now, s₀, actions, h₀, hrun, htold⟩ := h.internal
    obtain ⟨more, hmore, hinputs⟩ := Processor.turn_internal hturn
    refine ⟨now, s₀, actions ++ more, h₀, run_append_ok.2 ⟨_, hrun, hmore⟩, ?_⟩
    rw [Internal.inputs_append, hinputs, ht]
    exact List.rel_append htold (found_told hkept hflow sur)

theorem made_step (hmade : ∀ thread, s.thread = some thread → Made env traffic s.core thread)
    (hkept : Kept traffic s) (hflow : Core.Flow (createdBy as) s.core) (hs : step env traffic s a = .ok s') :
    ∀ thread, s'.thread = some thread → Made env traffic s'.core thread := by
  obtain ⟨hcore, hthread, -⟩ := step_ok.1 hs
  intro thread ht
  rcases threadStep_cases hthread with ⟨hends, old, processor, hold, hturn, hnew⟩ |
    ⟨haction, hspawn, processor, hinit, hnew⟩ | ⟨haction, hjoin, hnew⟩ | ⟨hends, -, hsame⟩
  · -- A turn ends.
    obtain rfl := Option.some.inj (ht.symm.trans hnew)
    refine (hmade old hold).turn hkept hflow ?_ rfl hturn
    cases haction : a.action with
    | processor =>
      rw [haction] at hcore hends
      rcases (core_done hcore (by simp)).2 with ⟨-, hp, -⟩ | ⟨hne, -, -⟩
      · have hconsuming : s.core.processor = .consuming := by
          simp only [endsTurn, Bool.and_eq_true, decide_eq_true_eq] at hends
          exact hends.1
        simpa [finished, hconsuming] using hp
      · exact absurd rfl hne
    | _ =>
      rw [haction] at hends
      cases hends
  · -- The thread is started.
    obtain rfl := Option.some.inj (ht.symm.trans hnew)
    exact ⟨⟨s'.core.processed, (List.append_nil _).symm⟩,
      a.sur.internalNow, processor.internal, [], Processor.initialized_internal hinit, rfl, .nil⟩
  · rw [hnew] at ht
    cases ht
  · rw [hsame] at ht
    have hold := hmade thread ht
    refine ⟨?_, hold.internal⟩
    obtain ⟨past, hpast⟩ := hold.served
    refine ⟨past, ?_⟩
    rw [← hpast]
    by_cases hcreate : ∃ p m, a.action = .create p m
    · obtain ⟨p, m, haction⟩ := hcreate
      rw [haction] at hcore
      exact (core_create hcore).2.2.1
    · rcases (core_done hcore fun p m heq => hcreate ⟨p, m, heq⟩).2 with ⟨haction, hp, -⟩ | ⟨-, hp, -⟩
      · rw [haction] at hp hends
        rw [hp, finished_of_not_endsTurn hends, List.append_nil]
      · exact hp

theorem run_made (h : run (step env traffic) State.new as = .ok s) (ht : s.thread = some thread) :
    Made env traffic s.core thread := by
  have hinv : ∀ thread, s.thread = some thread → Made env traffic s.core thread := by
    refine run_inv_throughout
      (I := fun _ s => ∀ thread, s.thread = some thread → Made env traffic s.core thread)
      (P := fun pre s _ => run (step env traffic) State.new pre = .ok s) ?_ (fun _ ht => by cases ht) h ?_
    · intro pre s a s' hmade hpre hs
      exact made_step hmade (run_kept hpre) (run_flow hpre) hs
    · intro pre a post s _ hpre
      exact hpre
  exact hinv thread ht

/-! ## By name -/

/-- The message is to this name. -/
def toName (traffic : Traffic M) (name : String) (m : M) : Bool := (traffic.message m).destinationName = name

omit [DecidableEq P] [DecidableEq M] in
/-- The history of a name: the messages to it, in order, and the updates. -/
theorem Made.history {core : Core.State P M} (h : Made env traffic core thread) (name : String) :
    ∃ events : List (Keyed.Event String Input Int),
      run (Keyed.entryStep (Internal.handle env thread.config) (Internal.updateMetric env)) none events =
          .ok (thread.processor.internal.metricsMap.lookup name) ∧
      List.Forall₂ (Told traffic) (thread.served.filter (toName traffic name)) (Keyed.inputs events) := by
  obtain ⟨now, s₀, actions, h₀, hrun, htold⟩ := h.internal
  have hempty : s₀.store name = none := by
    obtain ⟨_, -, h₀⟩ := bind_eq_ok.1 h₀
    obtain ⟨_, -, h₀⟩ := bind_eq_ok.1 h₀
    obtain ⟨_, -, h₀⟩ := bind_eq_ok.1 h₀
    obtain rfl := Except.ok.inj h₀
    rfl
  have hname := Keyed.run_at (Internal.run_store hrun) name
  rw [hempty] at hname
  refine ⟨_, hname, ?_⟩
  rw [Internal.inputs_concerning]
  refine List.rel_filter (R := Told traffic) (fun m input hm => ?_) htold
  simp [toName, hm.message]

/-- The name is this measuring point's own in this run: it alone creates messages
to it, for a metric of this type, and all of them have been served. -/
structure OwnName (traffic : Traffic M) (as : List (Action P M)) (thread : Thread M K) (name : String)
    (type : MetricIndex) (p : P) : Prop where
  own : ∀ q, ∀ m ∈ createdBy as q, toName traffic name m = true → q = p
  typed : ∀ m ∈ createdBy as p, toName traffic name m = true → (traffic.message m).destinationType = type
  served : ∀ m ∈ createdBy as p, toName traffic name m = true → m ∈ thread.served

/-- **What is sent is served**, in the order in which it is sent. -/
theorem OwnName.served_eq {name : String} {type : MetricIndex} {p : P} (ho : OwnName traffic as thread name type p)
    (h : run (step env traffic) State.new as = .ok s) (ht : s.thread = some thread) :
    thread.served.filter (toName traffic name) = (createdBy as p).filter (toName traffic name) := by
  have hflow := run_flow h
  obtain ⟨past, hpast⟩ := (run_made h ht).served
  have hserved : thread.served.Sublist (s.core.earlier ++ s.core.sized.queue.exchanged) :=
    (hpast ▸ List.sublist_append_right past thread.served).trans hflow.processed_sublist
  have hown : thread.served.filter (toName traffic name) =
      (thread.served.filter (· ∈ createdBy as p)).filter (toName traffic name) := by
    rw [List.filter_filter]
    refine List.filter_congr fun m hm => ?_
    cases hname : toName traffic name m with
    | false => rfl
    | true =>
      obtain ⟨q, hq⟩ := hflow.ordered.store_made m (hserved.subset hm)
      obtain rfl := ho.own q m hq hname
      simp [hq]
  have hsublist : (thread.served.filter (toName traffic name)).Sublist
      ((createdBy as p).filter (toName traffic name)) := by
    rw [hown]
    refine List.Sublist.filter _ ?_
    exact (hserved.filter _).trans ((List.sublist_append_left _ _).trans (hflow.ordered.order p))
  refine hsublist.eq_of_length_le (List.Subperm.length_le ?_)
  refine ((hflow.made_nodup p).filter _).subperm fun m hm => ?_
  obtain ⟨hm, hname⟩ := List.mem_filter.1 hm
  exact List.mem_filter.2 ⟨ho.served m hm hname, hname⟩

/-! ## One measuring point -/

/-- What a message says: an attribute's says its value, not where that is. -/
def meaning (traffic : Traffic M) (m : M) : EventMessage × Option AttributeValue :=
  if (traffic.message m).ownsValue then ((traffic.message m).butData, some (traffic.value m))
  else (traffic.message m, none)

omit [DecidableEq M] in
theorem Told.sameInput {traffic' : Traffic M} {m m' : M} {i j : Input} {type : MetricIndex}
    (hi : Told traffic m i) (hj : Told traffic' m' j) (hmeaning : meaning traffic m = meaning traffic' m')
    (htype : (traffic.message m).destinationType = type) : Internal.SameInput type i j := by
  unfold meaning at hmeaning
  cases howns : (traffic.message m).ownsValue <;> cases howns' : (traffic'.message m').ownsValue
  · rw [howns, howns'] at hmeaning
    have hmessage : i.1 = j.1 := by rw [hi.message, hj.message]; exact congrArg Prod.fst hmeaning
    refine ⟨by rw [hi.message, htype], by rw [hmessage], fun _ => by rw [hmessage], fun hattribute hset => ?_⟩
    rw [hi.message] at hset
    simp [EventMessage.ownsValue, htype, hattribute, hset] at howns
  · rw [howns, howns'] at hmeaning
    exact absurd (congrArg Prod.snd hmeaning) (by simp)
  · rw [howns, howns'] at hmeaning
    exact absurd (congrArg Prod.snd hmeaning) (by simp)
  · rw [howns, howns'] at hmeaning
    have hattribute : type = .attribute := by
      simp only [EventMessage.ownsValue, Bool.and_eq_true, decide_eq_true_eq] at howns
      rw [← htype, howns.1]
    refine ⟨by rw [hi.message, htype], ?_, fun hne => absurd hattribute hne, fun _ _ => ?_⟩
    · rw [hi.message, hj.message]
      exact congrArg Prod.fst hmeaning
    · rw [hi.message, hj.message, hi.value howns, hj.value howns']
      exact congrArg Prod.snd hmeaning

omit [DecidableEq M] in
theorem sameInputs {traffic' : Traffic M} {type : MetricIndex} {ms ms' : List M} {is js : List Input}
    (hi : List.Forall₂ (Told traffic) ms is) (hj : List.Forall₂ (Told traffic') ms' js)
    (hmeaning : ms.map (meaning traffic) = ms'.map (meaning traffic'))
    (htype : ∀ m ∈ ms, (traffic.message m).destinationType = type) :
    List.Forall₂ (Internal.SameInput type) is js := by
  induction hi generalizing ms' js with
  | nil =>
    obtain rfl := List.map_eq_nil_iff.1 hmeaning.symm
    cases hj
    exact .nil
  | cons hm _ ih =>
    cases hj with
    | nil => cases hmeaning
    | cons hm' hj =>
      obtain ⟨hfirst, hrest⟩ := List.cons.inj hmeaning
      refine .cons (hm.sameInput hm' hfirst (htype _ (List.mem_cons_self ..))) (ih hj hrest ?_)
      intro m hm
      exact htype m (List.mem_cons_of_mem _ hm)

/-- **Schedules do not matter.** Two runs, under the same configuration, in each
of which a name is one measuring point's own: if it sends the same to it, the
metric under the name has the same lasting part, however the threads are
interleaved, whatever else is measured and whenever dumps are made. -/
theorem schedule_independent {traffic' : Traffic M} {as' : List (Action P M)} {s' : State P M K}
    {thread' : Thread M K} {name : String} {type : MetricIndex} {p p' : P}
    (h : run (step env traffic) State.new as = .ok s) (ht : s.thread = some thread)
    (h' : run (step env traffic') State.new as' = .ok s') (ht' : s'.thread = some thread')
    (hconfig : thread.config = thread'.config) (ho : OwnName traffic as thread name type p)
    (ho' : OwnName traffic' as' thread' name type p')
    (hmeaning : ((createdBy as p).filter (toName traffic name)).map (meaning traffic) =
      ((createdBy as' p').filter (toName traffic' name)).map (meaning traffic')) :
    (thread.processor.internal.metricsMap.lookup name).map MetricPtr.lasting =
      (thread'.processor.internal.metricsMap.lookup name).map MetricPtr.lasting := by
  obtain ⟨events, hevents, htold⟩ := (run_made h ht).history name
  obtain ⟨events', hevents', htold'⟩ := (run_made h' ht').history name
  rw [ho.served_eq h ht] at htold
  rw [ho'.served_eq h' ht'] at htold'
  rw [← hconfig] at hevents'
  have hsame : List.Forall₂ (Internal.SameInput type) (Keyed.inputs events) (Keyed.inputs events') := by
    refine sameInputs htold htold' hmeaning fun m hm => ?_
    obtain ⟨hm, hname⟩ := List.mem_filter.1 hm
    exact ho.typed m hm hname
  exact (Internal.history_lasting (.inl ⟨rfl, rfl⟩) hsame hevents hevents').lasting_eq

/-- A thread has the configuration with which it was started. -/
theorem run_config {config : Config} (h : run (step env traffic) State.new as = .ok s)
    (hconfig : ∀ a ∈ as, a.sur.config = config) (ht : s.thread = some thread) : thread.config = config := by
  refine run_inv (I := fun as s => (∀ a ∈ as, a.sur.config = config) →
    ∀ thread, s.thread = some thread → thread.config = config) ?_ (fun _ _ ht => by cases ht) h hconfig thread ht
  intro pre s a s' hI hs hpre thread ht
  have hold := hI fun b hb => hpre b (List.mem_append_left _ hb)
  rcases threadStep_cases (step_ok.1 hs).2.1 with ⟨-, old, processor, hthread, -, hnew⟩ | ⟨-, -, processor, -, hnew⟩ |
    ⟨-, -, hnew⟩ | ⟨-, -, hsame⟩
  · obtain rfl := Option.some.inj (ht.symm.trans hnew)
    exact hold old hthread
  · obtain rfl := Option.some.inj (ht.symm.trans hnew)
    exact hpre a (by simp)
  · rw [hnew] at ht
    cases ht
  · exact hold thread (hsame ▸ ht)

/-- The first measuring point counts, the second sets a gauge. -/
def countAndSet : Traffic Nat where
  message := fun m =>
    if m = 2 then GaugeEvents.createSetEvent "load" 0 (100 + m)
    else CounterEvents.createIncrementEvent "requests" 1 (100 + m)
  value := fun _ => .bool true

/-- The first measuring point by itself, with the thread after each message. -/
def alone : List (Core.Action Bool Nat) :=
  List.flatten [[.callInitialize], Core.coreSteps 6, Core.pushes true 1, [.increment true],
    List.replicate 8 .processor, Core.pushes true 3, [.increment true], List.replicate 16 .processor]

theorem schedule_independent_sample :
    ∃ (s s' : State Bool Nat ℚ) (thread thread' : Thread Nat ℚ),
      run (step Internal.sampleEnvironment countAndSet) State.new (sampleActions Core.crossing) = .ok s ∧
      run (step Internal.sampleEnvironment countAndSet) State.new (sampleActions alone) = .ok s' ∧
      s.thread = some thread ∧ s'.thread = some thread' ∧
      (thread.processor.internal.metricsMap.lookup "requests").map MetricPtr.lasting =
        (thread'.processor.internal.metricsMap.lookup "requests").map MetricPtr.lasting := by
  obtain ⟨s, hs, hserved⟩ : ∃ s : State Bool Nat ℚ,
      run (step Internal.sampleEnvironment countAndSet) State.new (sampleActions Core.crossing) = .ok s ∧
        s.thread.map Thread.served = some [2, 1, 3] := by
    decide +kernel
  obtain ⟨s', hs', hserved'⟩ : ∃ s : State Bool Nat ℚ,
      run (step Internal.sampleEnvironment countAndSet) State.new (sampleActions alone) = .ok s ∧
        s.thread.map Thread.served = some [1, 3] := by
    decide +kernel
  obtain ⟨thread, ht, hserved⟩ := Option.map_eq_some_iff.1 hserved
  obtain ⟨thread', ht', hserved'⟩ := Option.map_eq_some_iff.1 hserved'
  have hconfig : ∀ actions, ∀ a ∈ sampleActions actions, a.sur.config = .default := by
    intro actions a ha
    obtain ⟨_, -, rfl⟩ := List.mem_map.1 ha
    rfl
  have ho : OwnName countAndSet (sampleActions Core.crossing) thread "requests" .counter true :=
    ⟨by decide +kernel, by decide +kernel, by rw [hserved]; decide +kernel⟩
  have ho' : OwnName countAndSet (sampleActions alone) thread' "requests" .counter true :=
    ⟨by decide +kernel, by decide +kernel, by rw [hserved']; decide +kernel⟩
  have hthreads : thread.config = thread'.config :=
    (run_config hs (hconfig _) ht).trans (run_config hs' (hconfig _) ht').symm
  have hcreated : ∀ as : List (Action Bool Nat), createdBy as true = [1, 3] →
      ((createdBy as true).filter (toName countAndSet "requests")).map (meaning countAndSet) =
        [meaning countAndSet 1, meaning countAndSet 3] := by
    intro as has
    rw [has]
    rfl
  refine ⟨s, s', thread, thread', hs, hs', ht, ht', schedule_independent hs ht hs' ht' hthreads ho ho' ?_⟩
  rw [hcreated _ (by decide +kernel), hcreated _ (by decide +kernel)]

end Pipeline

end Handystats
