/-
Which messages act on a metric of their own kind.

A metric is made of the message's type, but it is the type of the metric found
that decides how a message is processed, and the event codes of the types
overlap. `readAs` is the table of what each type reads. A message to a metric
of another type is left alone just where that type has no case for its event
code; one to a new name, or to a metric of its type, is applied just where the
metric can be made and takes it (`acts_on_own_kind_iff`).
-/
import Handystats.EventReturns

namespace Handystats

open Runs

/-- As what a metric of this type reads a message with this code: nothing,
where it has no case for the code. -/
def readAs : MetricIndex → Nat → Option PayloadKind
  | .counter, eventType =>
    if eventType = CounterEvents.init ∨ eventType = CounterEvents.increment ∨
        eventType = CounterEvents.decrement then some .int64
    else none
  | .gauge, eventType =>
    if eventType = GaugeEvents.init ∨ eventType = GaugeEvents.set then some .double else none
  | .timer, eventType =>
    if eventType = TimerEvents.init ∨ eventType = TimerEvents.start ∨ eventType = TimerEvents.stop ∨
        eventType = TimerEvents.discard ∨ eventType = TimerEvents.heartbeat then some .instanceId
    else if eventType = TimerEvents.set then some .int64
    else none
  | .attribute, eventType => if eventType = AttributeEvents.set then some .attributeValue else none

/-- A message is written as what its own type reads. -/
theorem Created.readAs_eq {ck : Clock} {message : EventMessage} {kind : PayloadKind}
    (h : Created ck message kind) : readAs message.destinationType message.eventType = some kind := by
  cases h <;> rfl

variable {K : Type} [Field K] [LinearOrder K] {env : Environment K} {cfg : Config}
  {message : EventMessage} {kind : PayloadKind}

/-! ## One metric -/

theorem CounterEvents.processEvent_readAs {opts : CounterConfig} {counter : Counter K}
    {r : Counter K × Option PayloadKind} (h : processEvent env opts counter message = .ok r) :
    r.2 = readAs .counter message.eventType := by
  unfold processEvent at h
  split_ifs at h with h₁ h₂ h₃
  · obtain ⟨_, -, h⟩ := bind_eq_ok.1 h
    cases h
    simp [readAs, h₁]
  · obtain ⟨_, -, h⟩ := bind_eq_ok.1 h
    cases h
    simp [readAs, h₂]
  · obtain ⟨_, -, h⟩ := bind_eq_ok.1 h
    cases h
    simp [readAs, h₃]
  · cases h
    simp [readAs, h₁, h₂, h₃]

theorem GaugeEvents.processEvent_readAs {opts : GaugeConfig} {gauge : Gauge K}
    {r : Gauge K × Option PayloadKind} (h : processEvent env opts gauge message = .ok r) :
    r.2 = readAs .gauge message.eventType := by
  unfold processEvent at h
  split_ifs at h with h₁ h₂
  · obtain ⟨_, -, h⟩ := bind_eq_ok.1 h
    cases h
    simp [readAs, h₁]
  · obtain ⟨_, -, h⟩ := bind_eq_ok.1 h
    cases h
    simp [readAs, h₂]
  · cases h
    simp [readAs, h₁, h₂]

theorem TimerEvents.processEvent_readAs {opts : TimerConfig} {timer : Timer (Statistics K)}
    {r : Timer (Statistics K) × Option PayloadKind} (h : processEvent env opts timer message = .ok r) :
    r.2 = readAs .timer message.eventType := by
  unfold processEvent at h
  split_ifs at h with h₀ h₁ h₂ h₃ h₄ h₅
  · obtain ⟨_, -, h⟩ := bind_eq_ok.1 h
    cases h
    simp [readAs, h₀]
  · cases h
    simp [readAs, h₁]
  · obtain ⟨_, -, h⟩ := bind_eq_ok.1 h
    cases h
    simp [readAs, h₂]
  · cases h
    simp [readAs, h₃]
  · cases h
    simp [readAs, h₄]
  · obtain ⟨_, -, h⟩ := bind_eq_ok.1 h
    cases h
    simp [readAs, h₅, TimerEvents.init, TimerEvents.start, TimerEvents.stop, TimerEvents.discard,
      TimerEvents.heartbeat, TimerEvents.set]
  · cases h
    simp [readAs, h₀, h₁, h₂, h₃, h₄, h₅]

omit [Field K] [LinearOrder K] in
theorem AttributeEvents.processEvent_readAs {heap : AttributeHeap} {metric : Attribute}
    {r : Attribute × Option PayloadKind} (h : processEvent heap metric message = .ok r) :
    r.2 = readAs .attribute message.eventType := by
  unfold processEvent at h
  split_ifs at h with h₁
  · obtain ⟨_, -, h⟩ := bind_eq_ok.1 h
    cases h
    simp [readAs, h₁]
  · cases h
    simp [readAs, h₁]

/-- A metric reads a message as its own type reads it. -/
theorem processMetric_readAs {heap : AttributeHeap} {metricPtr : MetricPtr K}
    {r : MetricPtr K × Option PayloadKind} (h : processMetric env cfg heap metricPtr message = .ok r) :
    r.2 = readAs metricPtr.which message.eventType := by
  rcases metricPtr with (_ | counter) | (_ | gauge) | (_ | timer) | (_ | metric)
  case counter.some =>
    obtain ⟨_, hr, h⟩ := bind_eq_ok.1 h
    cases h
    exact CounterEvents.processEvent_readAs hr
  case gauge.some =>
    obtain ⟨_, hr, h⟩ := bind_eq_ok.1 h
    cases h
    exact GaugeEvents.processEvent_readAs hr
  case timer.some =>
    obtain ⟨_, hr, h⟩ := bind_eq_ok.1 h
    cases h
    exact TimerEvents.processEvent_readAs hr
  case attribute.some =>
    obtain ⟨_, hr, h⟩ := bind_eq_ok.1 h
    cases h
    exact AttributeEvents.processEvent_readAs hr
  all_goals cases h

/-- A metric whose type has no case for the code is left alone. -/
theorem processMetric_of_not_read {heap : AttributeHeap} {metricPtr : MetricPtr K}
    (hptr : metricPtr.isNull = false) (h : readAs metricPtr.which message.eventType = none) :
    processMetric env cfg heap metricPtr message = .ok (metricPtr, none) := by
  rcases metricPtr with (_ | counter) | (_ | gauge) | (_ | timer) | (_ | metric)
  case counter.some =>
    simp only [MetricPtr.which, readAs, ite_eq_right_iff, reduceCtorEq, imp_false, not_or] at h
    simp [processMetric, CounterEvents.processEvent, h]
    rfl
  case gauge.some =>
    simp only [MetricPtr.which, readAs, ite_eq_right_iff, reduceCtorEq, imp_false, not_or] at h
    simp [processMetric, GaugeEvents.processEvent, h]
    rfl
  case timer.some =>
    have hcodes : ∀ code, code = TimerEvents.init ∨ code = TimerEvents.start ∨ code = TimerEvents.stop ∨
        code = TimerEvents.discard ∨ code = TimerEvents.heartbeat ∨ code = TimerEvents.set →
        message.eventType ≠ code := by
      rintro code hcode rfl
      rcases hcode with hcode | hcode | hcode | hcode | hcode | hcode <;> rw [hcode] at h <;> cases h
    simp [processMetric, TimerEvents.processEvent, hcodes]
    rfl
  case attribute.some =>
    simp only [MetricPtr.which, readAs, ite_eq_right_iff, reduceCtorEq, imp_false] at h
    simp [processMetric, AttributeEvents.processEvent, h]
    rfl
  all_goals cases hptr

/-! ## One message -/

namespace Internal

variable {s s' : Internal K} {sur : Surroundings}

/-- The metrics under all other names are what they were. -/
def SameElsewhere (s s' : Internal K) (name : String) : Prop :=
  ∀ other, other ≠ name → s'.metricsMap.lookup other = s.metricsMap.lookup other

/-- The message is applied to this metric: what becomes of the metric is under
the message's name, and what the message carries was read as its kind. -/
def AppliedTo (env : Environment K) (cfg : Config) (s : Internal K) (message : EventMessage)
    (kind : PayloadKind) (sur : Surroundings) (metricPtr : MetricPtr K) : Prop :=
  ∃ metricPtr' s', processMetric env cfg sur.heap metricPtr message = .ok (metricPtr', some kind) ∧
    metricPtr'.isNull = false ∧ metricPtr'.which = message.destinationType ∧
    s.processEventMessage env cfg message sur = .ok s' ∧
    s'.metricsMap.lookup message.destinationName = some metricPtr' ∧
    SameElsewhere s s' message.destinationName ∧ s'.read = s.read ++ [kind]

/-- The message leaves every metric as it is, and what it carries unread. -/
def LeftAlone (env : Environment K) (cfg : Config) (s : Internal K) (message : EventMessage)
    (sur : Surroundings) : Prop :=
  ∃ s', s.processEventMessage env cfg message sur = .ok s' ∧
    (∀ name, s'.metricsMap.lookup name = s.metricsMap.lookup name) ∧ s'.read = s.read

/-- A message acts on a metric of its own kind: a metric of its type is made for
it, or found, and it is applied to that; one of another type it leaves alone. -/
def ActsOnOwnKind (env : Environment K) (cfg : Config) (s : Internal K) (message : EventMessage)
    (kind : PayloadKind) (sur : Surroundings) : Prop :=
  match s.metricsMap.lookup message.destinationName with
  | none => ∃ metricPtr, newMetric env cfg message = .ok metricPtr ∧
      metricPtr.which = message.destinationType ∧ s.AppliedTo env cfg message kind sur metricPtr
  | some metricPtr =>
    if metricPtr.which = message.destinationType then s.AppliedTo env cfg message kind sur metricPtr
    else s.LeftAlone env cfg message sur

/-- There is no metric under the message's name, one can be made and takes the
message first; or the metric there is of the message's type and takes it; or it
is of a type that has no case for the message's code. -/
def OwnKind (env : Environment K) (cfg : Config) (s : Internal K) (message : EventMessage)
    (sur : Surroundings) : Prop :=
  match s.metricsMap.lookup message.destinationName with
  | none => Creatable env cfg message.destinationName message.destinationType ∧
      TakesFirst env cfg sur.heap message
  | some metricPtr =>
    if metricPtr.which = message.destinationType then metricPtr.Takes env cfg sur.heap message
    else readAs metricPtr.which message.eventType = none

/-- Without a histogram, a gauge takes every value. -/
theorem set_of_not_histogram {pf : Platform K} {gauge : Gauge K} {opts : StatisticsConfig}
    (h : gauge.values.InUse pf opts) (hno : opts.computed .histogram = false) (value : K) (t : Int) :
    ∃ gauge', gauge.set pf value t = .ok gauge' := by
  have hno' : gauge.values.computed .histogram = false := by
    rw [Statistics.computed, h.reachable.config_eq, hno]
  exact ⟨_, by rw [Gauge.set, Statistics.update_of_not_histogram (.inl hno')]; rfl⟩

/-- A message is processed where its metric processes it: the library's own
gauges have no histogram. -/
theorem Inv.processes (h : Inv env s) {metricPtr : MetricPtr K} {r : MetricPtr K × Option PayloadKind}
    (hptr : (if (s.metric message.destinationName).isNull then newMetric env cfg message
      else .ok (s.metric message.destinationName)) = .ok metricPtr)
    (hr : processMetric env cfg sur.heap metricPtr message = .ok r) :
    ∃ s', s.processEventMessage env cfg message sur = .ok s' := by
  obtain ⟨processTime, hprocessTime⟩ := set_of_not_histogram h.processTime (by decide +kernel)
    (toDouble (env.platform.clock.countIn Timer.valueUnit
      ⟨sur.processEndTime - sur.processStartTime, env.platform.clock.unit⟩) : K) sur.processEndTime
  obtain ⟨size, hsize⟩ := set_of_not_histogram h.size (by decide +kernel)
    (toDouble (s.metricsMap.insert message.destinationName r.1).entries.length : K) sur.processEndTime
  refine ⟨⟨s.metricsMap.insert message.destinationName r.1, size, processTime, s.read ++ r.2.toList⟩, ?_⟩
  exact bind_eq_ok.2 ⟨_, hptr, bind_eq_ok.2 ⟨_, hr, bind_eq_ok.2 ⟨_, hprocessTime,
    bind_eq_ok.2 ⟨_, hsize, rfl⟩⟩⟩⟩

omit [Field K] [LinearOrder K] in
theorem sameElsewhere_of_insert {name : String} {metricPtr : MetricPtr K}
    (h : s'.metricsMap = s.metricsMap.insert name metricPtr) : SameElsewhere s s' name := by
  intro other hother
  rw [h, AList.lookup_insert_ne hother]

variable [IsStrictOrderedRing K]

/-- A metric of the message's type, made for it or found, is applied to where
it takes the message. -/
theorem appliedTo_iff (hI : Inv env s) (hcreated : Created env.platform.clock message kind)
    {metricPtr : MetricPtr K} (hwhich : metricPtr.which = message.destinationType)
    (huse : metricPtr.InUse env.platform)
    (hptr : (if (s.metric message.destinationName).isNull then newMetric env cfg message
      else .ok (s.metric message.destinationName)) = .ok metricPtr) :
    s.AppliedTo env cfg message kind sur metricPtr ↔ metricPtr.Takes env cfg sur.heap message := by
  rw [← processMetric_returns_iff huse]
  constructor
  · intro h
    obtain ⟨metricPtr', s', hr, -⟩ := h
    exact ⟨_, hr⟩
  · intro h
    obtain ⟨r, hr⟩ := h
    obtain ⟨s', hs'⟩ := hI.processes hptr hr
    obtain ⟨metricPtr', r', hptr', hr', hmap, hread⟩ := processEventMessage_ok hs'
    obtain rfl := Except.ok.inj (hptr.symm.trans hptr')
    obtain rfl := Except.ok.inj (hr.symm.trans hr')
    have hkind : r.2 = some kind := by rw [processMetric_readAs hr, hwhich, hcreated.readAs_eq]
    refine ⟨r.1, s', by rw [hr, ← hkind], ?_, (processMetric_which hr).trans hwhich, hs',
      by rw [hmap, AList.lookup_insert], sameElsewhere_of_insert hmap, by rw [hread, hkind]; rfl⟩
    exact ((processMetric_ends huse).of_ok hr).isNull

omit [IsStrictOrderedRing K] in
/-- A metric is left alone where it has no case for the message's code. -/
theorem leftAlone_iff (hI : Inv env s)
    (hfound : s.metricsMap.lookup message.destinationName = some (s.metric message.destinationName))
    (hnull : (s.metric message.destinationName).isNull = false) :
    s.LeftAlone env cfg message sur ↔
      readAs (s.metric message.destinationName).which message.eventType = none := by
  have hptr : (if (s.metric message.destinationName).isNull then newMetric env cfg message
      else .ok (s.metric message.destinationName)) = .ok (s.metric message.destinationName) := by
    rw [hnull]
    rfl
  constructor
  · intro h
    obtain ⟨s', hs', -, hunread⟩ := h
    obtain ⟨metricPtr, r, hptr', hr, -, hread⟩ := processEventMessage_ok hs'
    obtain rfl := Except.ok.inj (hptr.symm.trans hptr')
    rw [hunread, List.self_eq_append_right] at hread
    rw [← processMetric_readAs hr]
    cases hkind : r.2 with
    | none => rfl
    | some kind => simp [hkind] at hread
  · intro hnone
    have hr : processMetric env cfg sur.heap (s.metric message.destinationName) message =
        .ok (s.metric message.destinationName, none) := processMetric_of_not_read hnull hnone
    obtain ⟨s', hs'⟩ := hI.processes hptr hr
    obtain ⟨metricPtr, r, hptr', hr', hmap, hread⟩ := processEventMessage_ok hs'
    obtain rfl := Except.ok.inj (hptr.symm.trans hptr')
    obtain rfl := Except.ok.inj (hr.symm.trans hr')
    refine ⟨s', hs', fun name => ?_, by simpa using hread⟩
    rw [hmap]
    by_cases hname : name = message.destinationName
    · rw [hname, AList.lookup_insert, hfound]
    · rw [AList.lookup_insert_ne hname]

/-- **An event acts only on a metric of its own kind** if, and only if, the
metric under its name is of its kind and takes it, or is not there and can be
made and takes it, or is of a kind that has no case for its code. -/
theorem acts_on_own_kind_iff (hs : Reachable env cfg s)
    (hcreated : Created env.platform.clock message kind) :
    ActsOnOwnKind env cfg s message kind sur ↔ OwnKind env cfg s message sur := by
  have hI := hs.inv
  unfold ActsOnOwnKind OwnKind
  rcases hI.metric_cases message.destinationName with ⟨hfound, -, hnull⟩ | ⟨hfound, hnull, huse⟩
  · rw [hfound]
    have hnew := newMetric_returnsIff env cfg message
    have hfirst : ∀ metricPtr, newMetric env cfg message = .ok metricPtr →
        (s.AppliedTo env cfg message kind sur metricPtr ↔ TakesFirst env cfg sur.heap message) := by
      intro metricPtr hptr
      obtain ⟨huse, hwhich⟩ := hnew.ends.of_ok hptr
      rw [appliedTo_iff hI hcreated hwhich huse (by rw [hnull, if_pos rfl, hptr]), newMetric_takes_iff hptr]
    constructor
    · intro h
      obtain ⟨metricPtr, hptr, -, happlied⟩ := h
      rcases hnew with ⟨hcreatable, -⟩ | ⟨-, f, hf, -⟩
      · exact ⟨hcreatable, (hfirst metricPtr hptr).1 happlied⟩
      · rw [hptr] at hf
        cases hf
    · intro h
      obtain ⟨hcreatable, htakes⟩ := h
      rcases hnew with ⟨-, metricPtr, hptr, -, hwhich⟩ | ⟨hnot, -⟩
      · exact ⟨metricPtr, hptr, hwhich, (hfirst metricPtr hptr).2 htakes⟩
      · exact absurd hcreatable hnot
  · rw [hfound]
    by_cases htype : (s.metric message.destinationName).which = message.destinationType
    · simp only [htype, if_true]
      exact appliedTo_iff hI hcreated htype huse (by rw [hnull]; rfl)
    · simp only [htype, if_false]
      exact leftAlone_iff hI hfound hnull

/-- The counter under a name. -/
def counter? (s : Internal K) (name : String) : Option (Counter K) :=
  match s.metricsMap.lookup name with
  | some (.counter metric) => metric
  | _ => none

omit [Field K] [LinearOrder K] in
theorem lookup_of_counter? {name : String} {counter : Counter K} (h : s.counter? name = some counter) :
    s.metricsMap.lookup name = some (.counter (some counter)) := by
  unfold counter? at h
  split at h
  next metric hfound => rw [hfound, h]
  next => cases h

/-- The value of the counter under a name. -/
def counterValue (s : Internal K) (name : String) : Option Int64 := (s.counter? name).map Counter.value

/-- A counter that was made with the value 5. -/
def sampleCounter : Except Fault (Internal ℚ) := do
  let s ← initialized sampleEnvironment 0
  s.step sampleEnvironment .default
    (.processEventMessage (CounterEvents.createInitEvent "requests" 5 1) ⟨fun _ => none, 0, 0⟩)

theorem sampleCounter_reachable {s : Internal ℚ} (h : sampleCounter = .ok s) :
    Reachable sampleEnvironment .default s := by
  obtain ⟨s₀, h₀, hs⟩ := bind_eq_ok.1 h
  exact ⟨0, s₀, _, h₀, run_singleton_ok.2 hs⟩

theorem acts_on_own_kind_sample : ∃ s : Internal ℚ,
    sampleCounter = .ok s ∧
    ActsOnOwnKind sampleEnvironment .default s (GaugeEvents.createSetEvent "latency" 7 2) .double
      ⟨fun _ => none, 0, 0⟩ ∧
    ActsOnOwnKind sampleEnvironment .default s (CounterEvents.createIncrementEvent "requests" 3 2) .int64
      ⟨fun _ => none, 0, 0⟩ ∧
    ActsOnOwnKind sampleEnvironment .default s
      (TimerEvents.createSetEvent sampleEnvironment.platform.clock "requests" ⟨3, .sec⟩ 2) .int64
      ⟨fun _ => none, 0, 0⟩ := by
  obtain ⟨s, hs, hlatency, hrequests⟩ : ∃ s : Internal ℚ, sampleCounter = .ok s ∧
      (s.metricsMap.lookup "latency").isNone = true ∧
      (s.counter? "requests").any (fun counter => counter.values.CanTake sampleEnvironment.platform
        (max counter.timestamp 2)) = true := by
    decide +kernel
  have hreachable := sampleCounter_reachable hs
  obtain ⟨counter, hcounter, hcan⟩ := (Option.any_eq_true _ _).1 hrequests
  have hfound : s.metricsMap.lookup "requests" = some (.counter (some counter)) := lookup_of_counter? hcounter
  refine ⟨s, hs, (acts_on_own_kind_iff hreachable (.gaugeSet _ _ _)).2 ?_,
    (acts_on_own_kind_iff hreachable (.counterIncrement _ _ _)).2 ?_,
    (acts_on_own_kind_iff hreachable (.timerSet _ _ _)).2 ?_⟩
  · have hnone : s.metricsMap.lookup (GaugeEvents.createSetEvent "latency" 7 2).destinationName = none :=
      Option.isNone_iff_eq_none.1 hlatency
    rw [OwnKind, hnone]
    refine ⟨⟨fun _ hselect => ?_, fun _ => by decide +kernel⟩, fun hinit => ?_⟩
    · cases hselect
    · cases hinit
  · have hfound' : s.metricsMap.lookup (CounterEvents.createIncrementEvent "requests" 3 2).destinationName =
        some (.counter (some counter)) := hfound
    rw [OwnKind, hfound']
    refine ⟨fun hinit => ?_, fun _ => .inr (of_decide_eq_true hcan)⟩
    cases hinit
  · have hfound' : s.metricsMap.lookup (TimerEvents.createSetEvent sampleEnvironment.platform.clock "requests"
        ⟨3, .sec⟩ 2).destinationName = some (.counter (some counter)) := hfound
    rw [OwnKind, hfound']
    rfl

/-- A value set for a gauge increments the counter of the same name. -/
theorem gauge_set_increments_counter : ∃ s s' : Internal ℚ,
    Reachable sampleEnvironment .default s ∧ s.counterValue "requests" = some 5 ∧
    Created sampleEnvironment.platform.clock (GaugeEvents.createSetEvent "requests" 1 2) .double ∧
    s.processEventMessage sampleEnvironment .default (GaugeEvents.createSetEvent "requests" 1 2)
      ⟨fun _ => none, 0, 0⟩ = .ok s' ∧
    s'.counterValue "requests" = some 6 ∧ s'.read = [.int64, .int64] ∧
    ¬ ActsOnOwnKind sampleEnvironment .default s (GaugeEvents.createSetEvent "requests" 1 2) .double
      ⟨fun _ => none, 0, 0⟩ := by
  let message := GaugeEvents.createSetEvent "requests" 1 2
  let next (s : Internal ℚ) := s.processEventMessage sampleEnvironment .default message ⟨fun _ => none, 0, 0⟩
  obtain ⟨s, hs⟩ : ∃ s, sampleCounter = .ok s := exists_ok_of_toBool (by decide +kernel)
  obtain ⟨s', hs'⟩ : ∃ s', sampleCounter >>= next = .ok s' := exists_ok_of_toBool (by decide +kernel)
  have hvalue : sampleCounter.toOption.bind (counterValue · "requests") = some 5 := by decide +kernel
  have hvalue' : (sampleCounter >>= next).toOption.bind (counterValue · "requests") = some 6 := by
    decide +kernel
  have hread : sampleCounter.toOption.map Internal.read = some [.int64] := by decide +kernel
  have hread' : (sampleCounter >>= next).toOption.map Internal.read = some [.int64, .int64] := by
    decide +kernel
  rw [hs'] at hvalue' hread'
  rw [hs] at hs' hvalue hread
  have hread : s.read = [.int64] := Option.some.inj hread
  have hread' : s'.read = [.int64, .int64] := Option.some.inj hread'
  refine ⟨s, s', sampleCounter_reachable hs, hvalue, .gaugeSet _ _ _, hs', hvalue', hread', fun h => ?_⟩
  obtain ⟨counter, hcounter, -⟩ := Option.map_eq_some_iff.1 hvalue
  have hfound : s.metricsMap.lookup message.destinationName = some (.counter (some counter)) :=
    lookup_of_counter? hcounter
  rw [ActsOnOwnKind, hfound] at h
  obtain ⟨s'', hs'', -, hunread⟩ := h
  obtain rfl := Except.ok.inj (hs''.symm.trans hs')
  rw [hread, hread'] at hunread
  cases hunread

end Internal

end Handystats
