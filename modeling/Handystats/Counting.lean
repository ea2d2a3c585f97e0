/-
What the counters have counted, in every run of the library as a whole.

Any number of measuring points count to one name. The counter has come to what
was served, in that order (`counter_counts`); and once nobody is at work on
anything, before any `finalize`, that is all that was created, whatever the
interleaving was (`everything_counted`).
-/
import Handystats.CounterLaw
import Handystats.Delivery

namespace Handystats

open Runs

variable {K : Type} [Field K] [LinearOrder K] {env : Environment K} {cfg : Config}

/-! ## One counter -/

/-- The call of a counter that the message is for. -/
def EventMessage.counterCall (message : EventMessage) : CounterCall :=
  if message.eventType = CounterEvents.init then .init message.eventData.toInt64 message.timestamp
  else if message.eventType = CounterEvents.increment then .increment message.eventData.toInt64 message.timestamp
  else .decrement message.eventData.toInt64 message.timestamp

/-- A message that a counter is made of, not at `time_point()`. -/
structure EventMessage.Counts (message : EventMessage) : Prop where
  destination : message.destinationType = .counter
  event : message.eventType = CounterEvents.init ∨ message.eventType = CounterEvents.increment ∨
    message.eventType = CounterEvents.decrement
  stamped : message.timestamp ≠ timePointZero

/-- Changes add up. -/
theorem CounterCall.total_changes {calls : List CounterCall} (h : ∀ call ∈ calls, call.isInit = false) :
    total calls = (calls.map change).sum := by
  induction calls using List.reverseRecOn with
  | nil => rfl
  | append_singleton calls call ih =>
    rw [total_change calls (h call (by simp)), ih fun c hc => h c (List.mem_append_left _ hc)]
    simp

namespace Internal

/-- Under the name there is nothing yet, or a counter that has come to this
total. -/
def Totals (calls : List CounterCall) (v : Option (MetricPtr K)) : Prop :=
  (calls = [] ∧ v = none) ∨
    ∃ counter, v = some (.counter (some counter)) ∧ counter.timestamp ≠ timePointZero ∧
      counter.value = Int64.ofInt (CounterCall.total calls)

theorem Totals.refresh {calls : List CounterCall} {v : Option (MetricPtr K)} (h : Totals calls v) (t : Int) :
    Totals calls (v.map (updateMetric env t)) := by
  rcases h with ⟨hcalls, rfl⟩ | ⟨counter, rfl, hstamp, hvalue⟩
  · exact .inl ⟨hcalls, rfl⟩
  · exact .inr ⟨_, rfl, hstamp, hvalue⟩

/-- What a message does to a counter is one call, of a new one for `init`. -/
theorem counterEvent_ok {opts : CounterConfig} {counter : Counter K} {message : EventMessage}
    {r : Counter K × Option PayloadKind} (hc : message.Counts)
    (h : CounterEvents.processEvent env opts counter message = .ok r) :
    ∃ base : Counter K, (message.counterCall.isInit = false → base = counter) ∧
      base.step env.platform message.counterCall = .ok r.1 := by
  unfold CounterEvents.processEvent at h
  rcases hc.event with hevent | hevent | hevent
  · rw [if_pos hevent] at h
    obtain ⟨made, hmade, h⟩ := bind_eq_ok.1 h
    obtain rfl := Except.ok.inj h
    obtain ⟨base, -, hinit⟩ := bind_eq_ok.1 hmade
    refine ⟨base, ?_, ?_⟩
    · simp [EventMessage.counterCall, hevent, CounterCall.isInit]
    · rw [EventMessage.counterCall, if_pos hevent]
      exact hinit
  · have hinit : ¬ message.eventType = CounterEvents.init := by rw [hevent]; decide
    rw [if_neg hinit, if_pos hevent] at h
    obtain ⟨made, hmade, h⟩ := bind_eq_ok.1 h
    obtain rfl := Except.ok.inj h
    refine ⟨counter, fun _ => rfl, ?_⟩
    rw [EventMessage.counterCall, if_neg hinit, if_pos hevent]
    exact hmade
  · have hinit : ¬ message.eventType = CounterEvents.init := by rw [hevent]; decide
    have hincrement : ¬ message.eventType = CounterEvents.increment := by rw [hevent]; decide
    rw [if_neg hinit, if_neg hincrement, if_pos hevent] at h
    obtain ⟨made, hmade, h⟩ := bind_eq_ok.1 h
    obtain rfl := Except.ok.inj h
    refine ⟨counter, fun _ => rfl, ?_⟩
    rw [EventMessage.counterCall, if_neg hinit, if_neg hincrement]
    exact hmade

theorem counterCall_timestamp (message : EventMessage) : message.counterCall.timestamp = message.timestamp := by
  unfold EventMessage.counterCall
  split_ifs <;> rfl

/-- The counter that is found, or made. -/
theorem Totals.found {calls : List CounterCall} {v : Option (MetricPtr K)} (h : Totals calls v) {input : Input}
    {found : MetricPtr K} (hc : input.1.Counts)
    (hfound : (if (v.getD .default).isNull then newMetric env cfg input.1 else .ok (v.getD .default)) = .ok found) :
    ∃ counter, found = .counter (some counter) ∧
      (calls = [] ∧ counter.timestamp = timePointZero ∨
        counter.timestamp ≠ timePointZero ∧ counter.value = Int64.ofInt (CounterCall.total calls)) := by
  rcases h with ⟨hcalls, rfl⟩ | ⟨counter, rfl, hstamp, hvalue⟩
  · have hnew : newMetric env cfg input.1 = .ok found := hfound
    unfold newMetric at hnew
    rw [hc.destination] at hnew
    obtain ⟨opts, -, hnew⟩ := bind_eq_ok.1 hnew
    obtain ⟨counter, hcounter, hnew⟩ := bind_eq_ok.1 hnew
    obtain rfl := Except.ok.inj hnew
    obtain ⟨values, -, hcounter⟩ := bind_eq_ok.1 hcounter
    obtain rfl := Except.ok.inj hcounter
    exact ⟨_, rfl, .inl ⟨hcalls, rfl⟩⟩
  · obtain rfl := Except.ok.inj hfound
    exact ⟨counter, rfl, .inr ⟨hstamp, hvalue⟩⟩

theorem Totals.handle {calls : List CounterCall} {v : Option (MetricPtr K)} (h : Totals calls v) {input : Input}
    {p : MetricPtr K} (hc : input.1.Counts) (hp : handle env cfg v input = .ok p) :
    Totals (calls ++ [input.1.counterCall]) (some p) := by
  obtain ⟨found, hfound, hp⟩ := bind_eq_ok.1 hp
  obtain ⟨r, hr, hp⟩ := bind_eq_ok.1 hp
  obtain rfl := Except.ok.inj hp
  obtain ⟨counter, rfl, hcounter⟩ := h.found hc hfound
  obtain ⟨made, hmade, hr⟩ := bind_eq_ok.1 hr
  obtain rfl := Except.ok.inj hr
  obtain ⟨base, hbase, hstep⟩ := counterEvent_ok hc hmade
  obtain ⟨values, -, hmade⟩ := Counter.step_ok hstep
  have hstamp : input.1.counterCall.timestamp ≠ timePointZero := by
    rw [counterCall_timestamp]
    exact hc.stamped
  refine .inr ⟨made.1, rfl, ?_, ?_⟩
  all_goals rw [hmade]
  · cases hinit : input.1.counterCall.isInit with
    | true => simpa [Counter.after, hinit] using hstamp
    | false =>
      obtain rfl := hbase hinit
      by_cases h₀ : base.timestamp = timePointZero
      · rw [Counter.after_fresh hinit h₀]
        exact hstamp
      · rw [Counter.after_change hinit h₀]
        rcases max_choice base.timestamp input.1.counterCall.timestamp with hmax | hmax
        all_goals
          dsimp only
          rw [hmax]
          assumption
  · cases hinit : input.1.counterCall.isInit with
    | true =>
      cases hcall : input.1.counterCall with
      | init v t => simp [Counter.after, CounterCall.isInit, CounterCall.apply, CounterCall.total_init]
      | increment v t =>
        rw [hcall] at hinit
        cases hinit
      | decrement v t =>
        rw [hcall] at hinit
        cases hinit
    | false =>
      obtain rfl := hbase hinit
      rw [CounterCall.total_change calls hinit, ← CounterCall.apply_ofInt hinit]
      rcases hcounter with ⟨rfl, h₀⟩ | ⟨h₀, hvalue⟩
      · rw [Counter.after_fresh hinit h₀]
        rfl
      · rw [Counter.after_change hinit h₀, hvalue]

/-- **A counter's history**: its value is what the calls come to. -/
theorem history_totals {events : List (Keyed.Event String Input Int)} :
    ∀ {calls : List CounterCall} {v v' : Option (MetricPtr K)}, Totals calls v →
      (∀ input ∈ Keyed.inputs events, input.1.Counts) →
      run (Keyed.entryStep (Internal.handle env cfg) (updateMetric env)) v events = .ok v' →
      Totals (calls ++ (Keyed.inputs events).map fun input => input.1.counterCall) v' := by
  induction events with
  | nil =>
    intro calls v v' h _ hrun
    obtain rfl := Except.ok.inj hrun
    simpa [Keyed.inputs] using h
  | cons e events ih =>
    intro calls v v' h hc hrun
    obtain ⟨m, hm, hrest⟩ := run_cons_ok.1 hrun
    cases e with
    | one name input =>
      obtain ⟨p, hp, hm⟩ := bind_eq_ok.1 hm
      obtain rfl := Except.ok.inj hm
      have hfirst := h.handle (hc input (List.mem_cons_self ..)) hp
      have hall := ih hfirst (fun i hi => hc i (List.mem_cons_of_mem _ hi)) hrest
      rw [List.append_assoc] at hall
      exact hall
    | all t =>
      obtain rfl := Except.ok.inj hm
      exact ih (h.refresh t) hc hrest

end Internal

namespace Pipeline

variable {P M : Type} [DecidableEq P] [DecidableEq M] {traffic : Traffic M} {s s' : State P M K}
variable {a : Action P M} {as : List (Action P M)} {thread : Thread M K}

/-- The calls of a counter that these messages are for. -/
def counterCalls (traffic : Traffic M) (ms : List M) : List CounterCall :=
  ms.map fun m => (traffic.message m).counterCall

omit [DecidableEq P] [DecidableEq M] in
theorem told_messages {ms : List M} {is : List Input} (h : List.Forall₂ (Told traffic) ms is) :
    is.map Prod.fst = ms.map traffic.message := by
  induction h with
  | nil => rfl
  | cons hm _ ih => rw [List.map_cons, List.map_cons, hm.message, ih]

omit [DecidableEq P] [DecidableEq M] in
theorem Made.totals {core : Core.State P M} (h : Made env traffic core thread) {name : String}
    (hcounts : ∀ m ∈ thread.served, toName traffic name m = true → (traffic.message m).Counts) :
    Internal.Totals (counterCalls traffic (thread.served.filter (toName traffic name)))
      (thread.processor.internal.metricsMap.lookup name) := by
  obtain ⟨events, hevents, htold⟩ := h.history name
  have hmessages := told_messages htold
  have hcalls : (Keyed.inputs events).map (fun input => input.1.counterCall) =
      counterCalls traffic (thread.served.filter (toName traffic name)) := by
    have hmap := congrArg (List.map EventMessage.counterCall) hmessages
    rwa [List.map_map, List.map_map] at hmap
  rw [← hcalls]
  refine Internal.history_totals (.inl ⟨rfl, rfl⟩) (fun input hinput => ?_) hevents
  have hmem : input.1 ∈ (thread.served.filter (toName traffic name)).map traffic.message := by
    rw [← hmessages]
    exact List.mem_map_of_mem hinput
  obtain ⟨m, hm, hmessage⟩ := List.mem_map.1 hmem
  rw [← hmessage]
  exact hcounts m (List.mem_of_mem_filter hm) (List.of_mem_filter hm)

/-- **Counters count.** In every run: where the messages to a name that were
served are all a counter's, none for `time_point()`, there is a counter under
the name, whose value is what the messages come to in the order in which they
were served: the amount of the last `init` and the changes made since. -/
theorem counter_counts {name : String} (h : run (step env traffic) State.new as = .ok s)
    (ht : s.thread = some thread)
    (hcounts : ∀ m ∈ thread.served, toName traffic name m = true → (traffic.message m).Counts)
    (hserved : ∃ m ∈ thread.served, toName traffic name m = true) :
    ∃ counter, thread.processor.internal.metricsMap.lookup name = some (.counter (some counter)) ∧
      counter.value = Int64.ofInt
        (CounterCall.total (counterCalls traffic (thread.served.filter (toName traffic name)))) := by
  rcases (run_made h ht).totals hcounts with ⟨hnone, -⟩ | ⟨counter, hlookup, -, hvalue⟩
  · obtain ⟨m, hm, hname⟩ := hserved
    have hmem : m ∈ thread.served.filter (toName traffic name) := List.mem_filter.2 ⟨hm, hname⟩
    rw [List.map_eq_nil_iff.1 hnone] at hmem
    cases hmem
  · exact ⟨counter, hlookup, hvalue⟩

theorem countAndSet_message {m : Nat} (h : toName countAndSet "requests" m = true) :
    countAndSet.message m = CounterEvents.createIncrementEvent "requests" 1 (100 + m) := by
  refine if_neg fun h2 => ?_
  rw [h2] at h
  exact absurd h (by decide)

theorem countAndSet_counts {m : Nat} (h : toName countAndSet "requests" m = true) :
    (countAndSet.message m).Counts := by
  rw [countAndSet_message h]
  refine ⟨rfl, .inr (.inl rfl), ?_⟩
  change (100 + (m : Int)) ≠ 0
  omega

theorem counter_counts_sample :
    ∃ (s : State Bool Nat ℚ) (thread : Thread Nat ℚ),
      run (step Internal.sampleEnvironment countAndSet) State.new (sampleActions Core.crossing) = .ok s ∧
      s.thread = some thread ∧
      ∃ counter, thread.processor.internal.metricsMap.lookup "requests" = some (.counter (some counter)) ∧
        counter.value = 2 := by
  obtain ⟨s, hs, hserved⟩ : ∃ s : State Bool Nat ℚ,
      run (step Internal.sampleEnvironment countAndSet) State.new (sampleActions Core.crossing) = .ok s ∧
        s.thread.map Thread.served = some [2, 1, 3] := by
    decide +kernel
  obtain ⟨thread, ht, hserved⟩ := Option.map_eq_some_iff.1 hserved
  obtain ⟨counter, hlookup, hvalue⟩ := counter_counts hs ht (fun m _ hname => countAndSet_counts hname)
    ⟨1, by rw [hserved]; decide, by decide +kernel⟩
  refine ⟨s, thread, hs, ht, counter, hlookup, hvalue.trans ?_⟩
  rw [hserved]
  decide +kernel

/-! ## Everything -/

/-- The measuring points leave the core and the thread alone. -/
theorem core_frame {core core' : Core.State P M} {action : Core.Action P M}
    (h : Core.step core action = .ok core') (hprocessor : action ≠ .processor) (hcore : action ≠ .core)
    (hcalled : action ≠ .callInitialize) (hfinalize : action ≠ .callFinalize) :
    core'.enabled = core.enabled ∧ core'.core = core.core ∧ core'.processor = core.processor := by
  cases action with
  | processor => exact absurd rfl hprocessor
  | core => exact absurd rfl hcore
  | callInitialize => exact absurd rfl hcalled
  | callFinalize => exact absurd rfl hfinalize
  | testEnabled p | testQueue p =>
    simp only [Core.step] at h
    split at h
    next =>
      obtain rfl := Except.ok.inj h
      exact ⟨rfl, rfl, rfl⟩
    next => cases h
  | create p m =>
    simp only [Core.step] at h
    split at h
    next =>
      split_ifs at h
      obtain rfl := Except.ok.inj h
      exact ⟨rfl, rfl, rfl⟩
    next => cases h
  | start p | exchange p | link p =>
    simp only [Core.step] at h
    split at h
    next =>
      split_ifs at h
      obtain ⟨sized, -, h⟩ := bind_eq_ok.1 h
      obtain rfl := Except.ok.inj h
      exact ⟨rfl, rfl, rfl⟩
    next => cases h
  | increment p =>
    simp only [Core.step] at h
    split at h
    next =>
      obtain ⟨sized, -, h⟩ := bind_eq_ok.1 h
      obtain rfl := Except.ok.inj h
      exact ⟨rfl, rfl, rfl⟩
    next => cases h

/-- Before any `finalize`: the one thread, if there is one yet, has processed what
was processed, and nothing was deleted. -/
structure First (s : State P M K) : Prop where
  deleted : s.core.deleted = []
  place : s.core.core ∈ [Core.CoreState.idle, .testEnabled, .testQueue, .newQueue, .zeroNew, .enable, .spawn]
  spawning : s.core.core = .spawn → s.core.enabled = true
  before : s.thread = none → s.core.processed = [] ∧ s.core.processor = .stopped
  after : ∀ thread, s.thread = some thread →
    s.core.processed = thread.served ∧ s.core.enabled = true ∧ s.core.core ∈ [Core.CoreState.idle, .testEnabled]

omit [Field K] [LinearOrder K] [DecidableEq P] [DecidableEq M] in
theorem first_new : First (State.new : State P M K) where
  deleted := rfl
  place := List.mem_cons_self ..
  spawning := fun h => by cases h
  before := fun _ => ⟨rfl, rfl⟩
  after := fun _ h => by cases h

omit [Field K] [LinearOrder K] [DecidableEq P] [DecidableEq M] in
/-- A step that leaves the core where it is, or has it called, and the thread
alone. -/
theorem First.keep (h : First s) (hdeleted : s'.core.deleted = s.core.deleted)
    (hprocessed : s'.core.processed = s.core.processed) (henabled : s'.core.enabled = s.core.enabled)
    (hprocessor : s'.core.processor = s.core.processor) (hthread : s'.thread = s.thread)
    (hcore : s'.core.core = s.core.core ∨ s'.core.core = .testEnabled) : First s' where
  deleted := hdeleted.trans h.deleted
  place := by
    rcases hcore with hcore | hcore
    · rw [hcore]
      exact h.place
    · simp [hcore]
  spawning := fun hspawn => by
    rcases hcore with hcore | hcore
    · rw [henabled]
      exact h.spawning (hcore ▸ hspawn)
    · rw [hcore] at hspawn
      cases hspawn
  before := fun hnone => by
    rw [hprocessed, hprocessor]
    exact h.before (hthread ▸ hnone)
  after := fun thread ht => by
    obtain ⟨hserved, hon, hplace⟩ := h.after thread (hthread ▸ ht)
    rw [hprocessed, henabled]
    refine ⟨hserved, hon, ?_⟩
    rcases hcore with hcore | hcore
    · rw [hcore]
      exact hplace
    · simp [hcore]

theorem First.processor (h : First s) (hs : step env traffic s a = .ok s') (haction : a.action = .processor) :
    First s' := by
  obtain ⟨hcore, hthread, -⟩ := step_ok.1 hs
  rw [haction] at hcore
  obtain ⟨-, ⟨-, hprocessed, hdeleted⟩ | ⟨hne, -, -⟩⟩ := core_done hcore (by simp)
  swap
  · exact absurd rfl hne
  have hrest : s'.core.enabled = s.core.enabled ∧ s'.core.core = s.core.core ∧ s.core.processor ≠ .stopped := by
    simp only [Core.step, Core.processorStep] at hcore
    cases hp : s.core.processor with
    | stopped =>
      rw [hp] at hcore
      cases hcore
    | _ =>
      simp only [hp, Except.ok.injEq] at hcore
      rw [← hcore]
      exact ⟨rfl, rfl, by simp⟩
  obtain ⟨henabled, hplace, hrunning⟩ := hrest
  obtain ⟨old, hold⟩ : ∃ old, s.thread = some old := by
    cases ht : s.thread with
    | none => exact absurd (h.before ht).2 hrunning
    | some old => exact ⟨old, rfl⟩
  obtain ⟨hserved, hon, hat⟩ := h.after old hold
  have hafter : ∃ new, s'.thread = some new ∧ s'.core.processed = new.served := by
    rcases threadStep_cases hthread with ⟨hends, thread, processor, ht, -, hnew⟩ | ⟨hcall, -⟩ | ⟨hcall, -⟩ |
      ⟨hends, -, hsame⟩
    · obtain rfl := Option.some.inj (ht.symm.trans hold)
      refine ⟨_, hnew, ?_⟩
      have hconsuming : s.core.processor = .consuming := by
        rw [haction] at hends
        simp only [endsTurn, Bool.and_eq_true, decide_eq_true_eq] at hends
        exact hends.1
      rw [hprocessed, hserved, finished, if_pos hconsuming]
    · rw [haction] at hcall
      cases hcall
    · rw [haction] at hcall
      cases hcall
    · rw [haction] at hends
      refine ⟨old, hsame.trans hold, ?_⟩
      rw [hprocessed, finished_of_not_endsTurn hends, List.append_nil, hserved]
  obtain ⟨new, hnew, hprocessed⟩ := hafter
  refine ⟨hdeleted.trans h.deleted, hplace ▸ h.place, ?_, fun hnone => ?_, fun thread ht => ?_⟩
  · rw [hplace, henabled]
    exact h.spawning
  · rw [hnew] at hnone
    cases hnone
  · obtain rfl := Option.some.inj (ht.symm.trans hnew)
    exact ⟨hprocessed, henabled.trans hon, hplace ▸ hat⟩

theorem First.core (h : First s) (hs : step env traffic s a = .ok s') (haction : a.action = .core) : First s' := by
  obtain ⟨hcore, hthread, -⟩ := step_ok.1 hs
  rw [haction] at hcore
  obtain ⟨-, ⟨heq, -, -⟩ | ⟨-, hprocessed, hdeleted⟩⟩ := core_done hcore (by simp)
  · cases heq
  have hdrain : s.core.core ≠ .drain := by
    intro hdrain
    have hplace := h.place
    rw [hdrain] at hplace
    exact absurd hplace (by decide)
  rw [finished, if_neg hdrain, List.append_nil, h.deleted] at hdeleted
  have hnone : s.core.core ∉ [Core.CoreState.idle, .testEnabled] → s.thread = none := by
    intro hplace
    cases ht : s.thread with
    | none => rfl
    | some thread => exact absurd (h.after thread ht).2.2 hplace
  have hends : endsTurn s.core a.action = false := by
    rw [haction]
    rfl
  by_cases hspawn : s.core.core = .spawn
  · -- The thread is started.
    obtain ⟨hempty, -⟩ := h.before (hnone (by rw [hspawn]; decide))
    have hon := h.spawning hspawn
    simp only [Core.step, Core.coreStep, hspawn, Except.ok.injEq] at hcore
    rcases threadStep_cases hthread with ⟨hturn, -⟩ | ⟨-, -, processor, -, hnew⟩ | ⟨-, hjoin, -⟩ | ⟨-, hno, -⟩
    · rw [hends] at hturn
      cases hturn
    · have hidle : s'.core.core = .idle := by rw [← hcore]
      refine ⟨hdeleted, by simp [hidle], fun hs => ?_, fun ht => ?_, fun thread ht => ?_⟩
      · rw [hidle] at hs
        cases hs
      · rw [hnew] at ht
        cases ht
      · obtain rfl := Option.some.inj (ht.symm.trans hnew)
        refine ⟨hprocessed.trans hempty, ?_, by simp [hidle]⟩
        rw [← hcore]
        exact hon
    · rw [hspawn] at hjoin
      cases hjoin
    · exact absurd ⟨haction, hspawn⟩ hno
  · have hsame : s'.thread = s.thread := by
      rcases threadStep_cases hthread with ⟨hturn, -⟩ | ⟨-, hcase, -⟩ | ⟨-, hjoin, -⟩ | ⟨-, -, hsame⟩
      · rw [hends] at hturn
        cases hturn
      · exact absurd hcase hspawn
      · have hplace := h.place
        rw [hjoin] at hplace
        exact absurd hplace (by decide)
      · exact hsame
    have hplace := h.place
    cases hc : s.core.core with
    | idle => simp [Core.step, Core.coreStep, hc] at hcore
    | testEnabled | testQueue | newQueue | zeroNew | enable =>
      simp only [Core.step, Core.coreStep, hc, Except.ok.injEq] at hcore
      refine ⟨hdeleted, ?_, ?_, fun ht => ?_, fun thread ht => ?_⟩
      · rw [← hcore]
        dsimp only
        first
          | split_ifs <;> simp
          | simp
      · rw [← hcore]
        dsimp only
        first
          | split_ifs <;> simp
          | simp
      · rw [← hcore]
        exact h.before (hsame ▸ ht)
      · obtain ⟨hserved, hon, hat⟩ := h.after thread (hsame ▸ ht)
        rw [hc] at hat
        first
          | exact absurd hat (by decide)
          | exact ⟨hprocessed.trans hserved, by rw [← hcore]; exact hon, by rw [← hcore]; simp [hon]⟩
    | _ =>
      rw [hc] at hplace
      first
        | exact absurd hplace (by decide)
        | exact absurd hc hspawn

theorem First.step (h : First s) (hs : step env traffic s a = .ok s') (hfinalize : a.action ≠ .callFinalize) :
    First s' := by
  by_cases hprocessor : a.action = .processor
  · exact h.processor hs hprocessor
  by_cases hcall : a.action = .core
  · exact h.core hs hcall
  obtain ⟨hcore, hthread, -⟩ := step_ok.1 hs
  have hsame : s'.thread = s.thread := by
    rcases threadStep_cases hthread with ⟨hends, -⟩ | ⟨hcase, -⟩ | ⟨hcase, -⟩ | ⟨-, -, hsame⟩
    · cases haction : a.action with
      | processor => exact absurd haction hprocessor
      | _ =>
        rw [haction] at hends
        cases hends
    · exact absurd hcase hcall
    · exact absurd hcase hcall
    · exact hsame
  have hdone : s'.core.processed = s.core.processed ∧ s'.core.deleted = s.core.deleted := by
    by_cases hcreate : ∃ p m, a.action = .create p m
    · obtain ⟨p, m, haction⟩ := hcreate
      rw [haction] at hcore
      exact (core_create hcore).2.2
    · have hnone : finished s.core a.action = [] := by
        unfold finished
        split
        · contradiction
        · contradiction
        · rfl
      rcases (core_done hcore fun p m heq => hcreate ⟨p, m, heq⟩).2 with ⟨haction, -, -⟩ | ⟨-, hp, hd⟩
      · exact absurd haction hprocessor
      · exact ⟨hp, by rw [hd, hnone, List.append_nil]⟩
  by_cases hcalled : a.action = .callInitialize
  · rw [hcalled] at hcore
    simp only [Core.step] at hcore
    split_ifs at hcore
    have hcore := Except.ok.inj hcore
    refine h.keep hdone.2 hdone.1 ?_ ?_ hsame (.inr ?_)
    all_goals rw [← hcore]
  · obtain ⟨henabled, hplace, hprocessor⟩ := core_frame hcore hprocessor hcall hcalled hfinalize
    exact h.keep hdone.2 hdone.1 henabled hprocessor hsame (.inl hplace)

theorem run_first (h : run (step env traffic) State.new as = .ok s) (hfinalize : ∀ a ∈ as, a.action ≠ .callFinalize) :
    First s := by
  refine run_inv (I := fun as s => (∀ a ∈ as, a.action ≠ .callFinalize) → First s) ?_ (fun _ => first_new) h hfinalize
  intro pre s a s' hI hs hpre
  exact (hI fun b hb => hpre b (List.mem_append_left _ hb)).step hs (hpre a (by simp))

/-- **Everything is counted.** After a run whose steps were all orderly, before
any `finalize`: when every call has returned and the queue is empty, all that was
created has been served, and a counter to which any number of measuring points
have counted has come to the sum of what they did, whatever the interleaving. -/
theorem everything_counted (h : run (step env traffic) State.new as = .ok s)
    (horderly : Throughout (step env traffic) State.new as fun _ s a => Core.Orderly s.core a.action)
    (hfinalize : ∀ a ∈ as, a.action ≠ .callFinalize) (ht : s.thread = some thread)
    (hcalls : ∀ p, s.core.calls p = .idle) (hempty : MessageQueue.Drained s.core.sized) :
    thread.served.Perm s.core.created ∧
    ∀ name, (∀ m ∈ s.core.created, toName traffic name m = true →
        (traffic.message m).Counts ∧ (traffic.message m).counterCall.isInit = false) →
      (∃ m ∈ s.core.created, toName traffic name m = true) →
      ∃ counter, thread.processor.internal.metricsMap.lookup name = some (.counter (some counter)) ∧
        counter.value = Int64.ofInt ((s.core.created.filter (toName traffic name)).map fun m =>
          (traffic.message m).counterCall.change).sum := by
  have hgood := run_good h horderly
  have hfirst := run_first h hfinalize
  have hserved : thread.served.Perm s.core.created := by
    have hquiet := hgood.leaveDrain hempty fun p => by rw [hcalls p]; rfl
    have hcreated : s.core.created.Perm (s.core.earlier ++ s.core.sized.queue.exchanged) := by
      refine hgood.placed.perm fun p => ?_
      rw [hcalls p]
      rfl
    have hsettled := hgood.settled
    simp only [Core.Settled, Core.inHand, hempty.1, List.append_nil, hquiet.returned_eq hgood.reach,
      ← List.map_append, hfirst.deleted] at hsettled
    rw [(hfirst.after thread ht).1] at hsettled
    exact ((List.map_perm_map_iff Core.msg_injective).1 hsettled).trans hcreated.symm
  refine ⟨hserved, fun name hcounts hsome => ?_⟩
  have htotals := (run_made h ht).totals fun m hm hname => (hcounts m (hserved.mem_iff.1 hm) hname).1
  have hsum : CounterCall.total (counterCalls traffic (thread.served.filter (toName traffic name))) =
      ((s.core.created.filter (toName traffic name)).map fun m => (traffic.message m).counterCall.change).sum := by
    rw [CounterCall.total_changes, counterCalls, List.map_map]
    · exact ((hserved.filter _).map _).sum_eq
    · intro call hcall
      obtain ⟨m, hm, rfl⟩ := List.mem_map.1 hcall
      exact (hcounts m (hserved.mem_iff.1 (List.mem_of_mem_filter hm)) (List.of_mem_filter hm)).2
  rcases htotals with ⟨hnone, -⟩ | ⟨counter, hlookup, -, hvalue⟩
  · obtain ⟨m, hm, hname⟩ := hsome
    have hmem : m ∈ thread.served.filter (toName traffic name) :=
      List.mem_filter.2 ⟨hserved.mem_iff.2 hm, hname⟩
    rw [List.map_eq_nil_iff.1 hnone] at hmem
    cases hmem
  · exact ⟨counter, hlookup, by rw [hvalue, hsum]⟩

/-- Two measuring points count, and everything is served. -/
def bothCount : List (Core.Action Bool Nat) :=
  List.flatten [Core.crossing, [.testEnabled true, .testEnabled false, .create false 4, .testQueue false,
    .start false, .exchange false, .create true 5, .testQueue true, .start true, .exchange true, .link true,
    .link false, .increment false, .increment true], List.replicate 24 .processor]

theorem everything_counted_sample :
    ∃ (s : State Bool Nat ℚ) (thread : Thread Nat ℚ),
      run (step Internal.sampleEnvironment countAndSet) State.new (sampleActions bothCount) = .ok s ∧
      s.thread = some thread ∧ s.core.created = [1, 2, 3, 4, 5] ∧
      ∃ counter, thread.processor.internal.metricsMap.lookup "requests" = some (.counter (some counter)) ∧
        counter.value = 4 := by
  obtain ⟨s, hs, hthread, hcreated, hcalls, hempty⟩ : ∃ s : State Bool Nat ℚ,
      run (step Internal.sampleEnvironment countAndSet) State.new (sampleActions bothCount) = .ok s ∧
        s.thread.isSome = true ∧ s.core.created = [1, 2, 3, 4, 5] ∧ (∀ p, s.core.calls p = .idle) ∧
        s.core.sized.consumer = .idle ∧ s.core.sized.mqSize = 0 := by
    decide +kernel
  obtain ⟨thread, ht⟩ := Option.isSome_iff_exists.1 hthread
  have horderly : Throughout (step Internal.sampleEnvironment countAndSet) (State.new : State Bool Nat ℚ)
      (sampleActions bothCount) fun _ s a => Core.Orderly s.core a.action :=
    throughout_of_meets (by decide +kernel)
  have hfinalize : ∀ a ∈ sampleActions bothCount, a.action ≠ .callFinalize := by
    intro a ha heq
    obtain ⟨action, haction, rfl⟩ := List.mem_map.1 ha
    obtain rfl : action = .callFinalize := heq
    simp [bothCount, Core.crossing, Core.coreSteps, Core.pushes] at haction
  obtain ⟨-, hcounted⟩ := everything_counted hs horderly hfinalize ht hcalls hempty
  obtain ⟨counter, hlookup, hvalue⟩ := hcounted "requests"
    (fun m _ hname => ⟨countAndSet_counts hname, by rw [countAndSet_message hname]; rfl⟩)
    ⟨1, by rw [hcreated]; decide, by decide +kernel⟩
  refine ⟨s, thread, hs, ht, hcreated, counter, hlookup, hvalue.trans ?_⟩
  rw [hcreated]
  decide +kernel

end Pipeline

end Handystats
