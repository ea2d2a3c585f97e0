/-
Which messages a metric takes.

An `INIT` event makes a metric anew with the options of its type, whose bins
have to fit; a value that is fed needs a histogram that takes it
(`Statistics.CanTake`); the value of an attribute has to be where the message
says. `processMetric_returns_iff` says that nothing else can go wrong.
-/
import Handystats.HistogramBounds
import Handystats.InternalFacts
import Handystats.TimerLifetime

namespace Handystats

open Runs

variable {K : Type} [Field K] [LinearOrder K] {env : Environment K} {cfg : Config} {pf : Platform K}
  {message : EventMessage}

/-! ## Statistics -/

namespace Statistics

variable {st st' : Statistics K} {config : StatisticsConfig}

/-- There is room in a histogram without bins, or none is asked for. -/
theorem canTake_initial (pf : Platform K) (config : StatisticsConfig) (t : Int) :
    (initial config : Statistics K).CanTake pf t := by
  rcases Nat.eq_zero_or_pos config.histogramBins with hbins | hbins
  · exact .inr (.inl hbins)
  · exact .inr (.inr (.inl hbins))

/-- What was fed at a time takes more at that time. -/
theorem canTake_of_update {v : K} {t : Int} (h : st.update pf v t = .ok st') : st'.CanTake pf t := by
  obtain ⟨hist, -, rfl⟩ := update_ok.1 h
  cases hcomputed : st.computed .histogram with
  | false => exact .inl hcomputed
  | true => exact .inr (.inr (.inr (.inl ((updated_timestamp_ge pf st v t hist).2 hcomputed))))

theorem new_ok (h : new pf config = .ok st) : st = initial config := by
  unfold new reset at h
  split_ifs at h
  exact (Except.ok.inj h).symm

variable [IsStrictOrderedRing K]

theorem InUse.update_returns_iff (h : InUse pf config st) (v : K) (t : Int) :
    (∃ st', st.update pf v t = .ok st') ↔ st.CanTake pf t := by
  obtain ⟨calls, hcalls⟩ := h.reachable
  exact Statistics.update_returns_iff hcalls.histogramInv v t

end Statistics

/-! ## Metrics -/

variable [IsStrictOrderedRing K] {config : StatisticsConfig}

omit [IsStrictOrderedRing K] in
theorem Gauge.canTake_new {opts : GaugeConfig} {gauge : Gauge K} (h : Gauge.new pf opts = .ok gauge) (t : Int) :
    gauge.values.CanTake pf t := by
  obtain ⟨values, hvalues, hgauge⟩ := bind_eq_ok.1 h
  cases hgauge
  rw [Statistics.new_ok hvalues]
  exact Statistics.canTake_initial pf opts.values t

theorem Gauge.set_returns_iff {gauge : Gauge K} (h : gauge.values.InUse pf config) (value : K) (t : Int) :
    (∃ gauge', gauge.set pf value t = .ok gauge') ↔ gauge.values.CanTake pf t :=
  exists_bind_ok_iff.trans (h.update_returns_iff value t)

theorem Counter.init_returns {counter : Counter K} (h : counter.values.InUse pf config) (value : Int64)
    (t : Int) : ∃ counter', counter.init pf value t = .ok counter' := by
  have hconfig := h.reachable.config_eq
  have hreset : counter.values.reset pf = .ok (Statistics.initial config) := by
    rw [Statistics.reset_of_fit (by rw [hconfig]; exact h.binsFit), hconfig]
  obtain ⟨values, hvalues⟩ := ((Statistics.InUse.initial h.binsFit).update_returns_iff
    ((toDouble value.toInt : Int) : K) t).2 (Statistics.canTake_initial pf config t)
  exact ⟨_, bind_eq_ok.2 ⟨_, hreset, bind_eq_ok.2 ⟨values, hvalues, rfl⟩⟩⟩

theorem Counter.changed_returns_iff {counter : Counter K} (h : counter.values.InUse pf config)
    (change : Int64 → Int64) (t : Int) :
    (∃ counter', counter.changed pf change t = .ok counter') ↔
      counter.timestamp = timePointZero ∨ counter.values.CanTake pf (max counter.timestamp t) := by
  unfold changed
  by_cases h₀ : counter.timestamp = timePointZero
  · -- What `init` feeds leaves the statistics at the time of the change.
    rw [if_pos h₀]
    refine iff_of_true ?_ (.inl h₀)
    obtain ⟨made, hmade⟩ := init_returns h 0 t
    have huse := (init_ends h 0 t).of_ok hmade
    obtain ⟨_, -, hmade'⟩ := bind_eq_ok.1 hmade
    obtain ⟨fed, hfed, hmade'⟩ := bind_eq_ok.1 hmade'
    cases hmade'
    obtain ⟨values, hvalues⟩ := (huse.update_returns_iff ((toDouble (change 0).toInt : Int) : K) t).2
      (Statistics.canTake_of_update hfed)
    refine ⟨⟨values, change 0, t⟩, bind_eq_ok.2 ⟨_, hmade, bind_eq_ok.2 ⟨values, ?_, ?_⟩⟩⟩
    · rwa [if_neg (lt_irrefl t)]
    · simp
  · have hlast : (if counter.timestamp < t then t else counter.timestamp) = max counter.timestamp t := by
      split_ifs <;> omega
    rw [if_neg h₀, or_iff_right h₀, ← h.update_returns_iff ((toDouble (change counter.value).toInt : Int) : K),
      ← hlast]
    exact exists_bind_ok_iff

theorem Timer.set_returns_iff {timer : Timer (Statistics K)} (h : timer.values.InUse pf config)
    (measurement : Duration) (t : Int) :
    (∃ timer', timer.set pf.clock (Timer.feed pf) measurement t = .ok timer') ↔ timer.values.CanTake pf t :=
  exists_bind_ok_iff.trans (h.update_returns_iff _ t)

/-- The instance is running and has not expired. -/
def Timer.Running {S : Type} (ck : Clock) (timer : Timer S) (id : UInt64) (t : Int) : Prop :=
  ∃ instanceState, timer.instances id = some instanceState ∧
    instanceState.expired ck timer.idleTimeout t = false

omit [Field K] [LinearOrder K] [IsStrictOrderedRing K] in
/-- The check for idle instances takes away only what is expired. -/
theorem Timer.running_check {S : Type} {ck : Clock} {timer : Timer S} {id : UInt64} {t : Int} :
    (timer.checkIdleTimeout ck t false).Running ck id t ↔ timer.Running ck id t := by
  unfold Running
  rw [checkIdleTimeout_idleTimeout]
  constructor
  · intro h
    obtain ⟨instanceState, hfound, hlive⟩ := h
    refine ⟨instanceState, ?_, hlive⟩
    unfold checkIdleTimeout at hfound
    split_ifs at hfound
    · exact hfound
    · exact (Option.filter_eq_some_iff.1 hfound).1
  · intro h
    obtain ⟨instanceState, hfound, hlive⟩ := h
    exact ⟨instanceState, checkIdleTimeout_alive hfound hlive false, hlive⟩

/-- `stop` feeds the duration of a running instance only. -/
theorem Timer.stop_returns_iff {timer : Timer (Statistics K)} (h : timer.values.InUse pf config) (id : UInt64)
    (t : Int) :
    (∃ timer', timer.stop pf.clock (Timer.feed pf) id t = .ok timer') ↔
      (timer.Running pf.clock id t → timer.values.CanTake pf t) := by
  rw [← Timer.checkIdleTimeout_values pf.clock timer t false] at h ⊢
  rw [← running_check]
  unfold stop stopped
  cases hfound : (timer.checkIdleTimeout pf.clock t false).instances id with
  | none =>
    refine iff_of_true ⟨_, rfl⟩ fun hrunning => ?_
    obtain ⟨instanceState, hsome, -⟩ := hrunning
    rw [hfound] at hsome
    cases hsome
  | some instanceState =>
    cases hlive : instanceState.expired pf.clock (timer.checkIdleTimeout pf.clock t false).idleTimeout t with
    | true =>
      refine iff_of_true ⟨_, if_pos hlive⟩ fun hrunning => ?_
      obtain ⟨other, hsome, hother⟩ := hrunning
      rw [hfound, Option.some.injEq] at hsome
      rw [← hsome, hlive] at hother
      cases hother
    | false =>
      have hrunning : (timer.checkIdleTimeout pf.clock t false).Running pf.clock id t :=
        ⟨instanceState, hfound, hlive⟩
      simp only [hlive, hrunning, forall_const, Bool.false_eq_true, if_false]
      exact exists_bind_ok_iff.trans (h.update_returns_iff _ t)

/-! ## Events -/

/-- What an `INIT` event does: it makes a metric, and calls it. -/
theorem init_returns_iff {α β : Type} {c : Prop} {P : α → Prop} {x : Except Fault α} {f : α → Except Fault β}
    (hx : ReturnsIff c P x) (hf : ∀ a, x = .ok a → P a → ∃ b, f a = .ok b) : (∃ b, (x >>= f) = .ok b) ↔ c := by
  rcases hx with ⟨hc, a, rfl, ha⟩ | ⟨hc, e, rfl, -⟩
  · exact iff_of_true (hf a rfl ha) hc
  · refine iff_of_false (fun h => ?_) hc
    obtain ⟨b, h⟩ := h
    cases h

/-- The counter takes the message. -/
def CounterEvents.Takes (env : Environment K) (opts : CounterConfig) (counter : Counter K)
    (message : EventMessage) : Prop :=
  (message.eventType = init → BinsFit env.platform opts.values.histogramBins) ∧
    (message.eventType = increment ∨ message.eventType = decrement →
      counter.timestamp = timePointZero ∨
        counter.values.CanTake env.platform (max counter.timestamp message.timestamp))

theorem CounterEvents.processEvent_returns_iff {counter : Counter K} (opts : CounterConfig)
    (h : counter.values.InUse env.platform config) :
    (∃ r, processEvent env opts counter message = .ok r) ↔ Takes env opts counter message := by
  have hinit : (∃ counter, processInitEvent env opts message = .ok counter) ↔
      BinsFit env.platform opts.values.histogramBins :=
    init_returns_iff (Counter.new_returnsIff opts) fun _ _ hnew => Counter.init_returns hnew _ _
  unfold processEvent Takes
  split_ifs with h₀ h₁ h₂
  · rw [exists_bind_ok_iff, hinit]
    simp [h₀, init, increment, decrement]
  · rw [exists_bind_ok_iff, processIncrementEvent, Counter.increment, Counter.changed_returns_iff h]
    simp [h₁, init, increment, decrement]
  · rw [exists_bind_ok_iff, processDecrementEvent, Counter.decrement, Counter.changed_returns_iff h]
    simp [h₂, init, increment, decrement]
  · simp [h₀, h₁, h₂]

/-- The gauge takes the message. -/
def GaugeEvents.Takes (env : Environment K) (opts : GaugeConfig) (gauge : Gauge K) (message : EventMessage) :
    Prop :=
  (message.eventType = init → BinsFit env.platform opts.values.histogramBins) ∧
    (message.eventType = set → gauge.values.CanTake env.platform message.timestamp)

theorem GaugeEvents.processEvent_returns_iff {gauge : Gauge K} (opts : GaugeConfig)
    (h : gauge.values.InUse env.platform config) :
    (∃ r, processEvent env opts gauge message = .ok r) ↔ Takes env opts gauge message := by
  have hinit : (∃ gauge, processInitEvent env opts message = .ok gauge) ↔
      BinsFit env.platform opts.values.histogramBins :=
    init_returns_iff (Gauge.new_returnsIff opts) fun _ hnew huse =>
      (Gauge.set_returns_iff huse _ _).2 (Gauge.canTake_new hnew _)
  unfold processEvent Takes
  split_ifs with h₀ h₁
  · rw [exists_bind_ok_iff, hinit]
    simp [h₀, init, set]
  · rw [exists_bind_ok_iff, processSetEvent, Gauge.set_returns_iff h]
    simp [h₁, init, set]
  · simp [h₀, h₁]

/-- The timer takes the message. -/
def TimerEvents.Takes (env : Environment K) (opts : TimerConfig) (timer : Timer (Statistics K))
    (message : EventMessage) : Prop :=
  (message.eventType = init → BinsFit env.platform opts.values.histogramBins) ∧
    (message.eventType = stop ∧ timer.Running env.platform.clock message.eventData message.timestamp ∨
        message.eventType = set →
      timer.values.CanTake env.platform message.timestamp)

theorem TimerEvents.processEvent_returns_iff {timer : Timer (Statistics K)} (opts : TimerConfig)
    (h : timer.values.InUse env.platform config) :
    (∃ r, processEvent env opts timer message = .ok r) ↔ Takes env opts timer message := by
  have hinit : (∃ timer, processInitEvent env opts message = .ok timer) ↔
      BinsFit env.platform opts.values.histogramBins :=
    init_returns_iff (Timer.new_returnsIff opts) fun _ _ _ => ⟨_, rfl⟩
  unfold processEvent Takes
  split_ifs with h₀ h₁ h₂ h₃ h₄ h₅
  · rw [exists_bind_ok_iff, hinit]
    simp [h₀, init, stop, set]
  · simp [h₁, init, start, stop, set]
  · rw [exists_bind_ok_iff, Timer.stop_returns_iff h]
    simp [h₂, init, stop, set]
  · simp [h₃, init, discard, stop, set]
  · simp [h₄, init, heartbeat, stop, set]
  · rw [exists_bind_ok_iff, processSetEvent, Timer.set_returns_iff h]
    simp [h₅, init, stop, set]
  · simp [h₀, h₂, h₅]

/-- The value that the message points to is there. -/
def AttributeEvents.Takes (heap : AttributeHeap) (message : EventMessage) : Prop :=
  message.eventType = set → (heap message.eventData).isSome = true

omit [Field K] [LinearOrder K] [IsStrictOrderedRing K] in
theorem AttributeEvents.processEvent_returns_iff {heap : AttributeHeap} (metric : Attribute) :
    (∃ r, processEvent heap metric message = .ok r) ↔ Takes heap message := by
  unfold processEvent Takes
  split_ifs with h₀
  · rw [exists_bind_ok_iff, processSetEvent]
    cases heap message.eventData <;> simp [h₀]
  · simp [h₀]

/-- The metric takes the message. -/
def MetricPtr.Takes (env : Environment K) (cfg : Config) (heap : AttributeHeap) (message : EventMessage) :
    MetricPtr K → Prop
  | .counter (some metric) => CounterEvents.Takes env cfg.counterOpts metric message
  | .gauge (some metric) => GaugeEvents.Takes env cfg.gaugeOpts metric message
  | .timer (some metric) => TimerEvents.Takes env cfg.timerOpts metric message
  | .attribute (some _) => AttributeEvents.Takes heap message
  | _ => False

/-- **Which messages a metric processes**: those it takes. -/
theorem processMetric_returns_iff {heap : AttributeHeap} {metricPtr : MetricPtr K}
    (h : metricPtr.InUse env.platform) :
    (∃ r, processMetric env cfg heap metricPtr message = .ok r) ↔ metricPtr.Takes env cfg heap message := by
  rcases metricPtr with (_ | counter) | (_ | gauge) | (_ | timer) | (_ | metric)
  case counter.some =>
    obtain ⟨config, h⟩ := h
    exact exists_bind_ok_iff.trans (CounterEvents.processEvent_returns_iff cfg.counterOpts h)
  case gauge.some =>
    obtain ⟨config, h⟩ := h
    exact exists_bind_ok_iff.trans (GaugeEvents.processEvent_returns_iff cfg.gaugeOpts h)
  case timer.some =>
    obtain ⟨config, h⟩ := h
    exact exists_bind_ok_iff.trans (TimerEvents.processEvent_returns_iff cfg.timerOpts h)
  case attribute.some => exact exists_bind_ok_iff.trans (AttributeEvents.processEvent_returns_iff metric)
  all_goals exact h.elim

/-! ## New metrics -/

/-- A metric that was just made takes the message. It has nothing yet that a
value could be too much for. -/
def TakesFirst (env : Environment K) (cfg : Config) (heap : AttributeHeap) (message : EventMessage) : Prop :=
  match message.destinationType with
  | .counter => message.eventType = CounterEvents.init →
      BinsFit env.platform cfg.counterOpts.values.histogramBins
  | .gauge => message.eventType = GaugeEvents.init → BinsFit env.platform cfg.gaugeOpts.values.histogramBins
  | .timer => message.eventType = TimerEvents.init → BinsFit env.platform cfg.timerOpts.values.histogramBins
  | .attribute => AttributeEvents.Takes heap message

omit [IsStrictOrderedRing K] in
theorem newMetric_takes_iff {heap : AttributeHeap} {metricPtr : MetricPtr K}
    (h : newMetric env cfg message = .ok metricPtr) :
    metricPtr.Takes env cfg heap message ↔ TakesFirst env cfg heap message := by
  unfold newMetric at h
  unfold TakesFirst
  cases htype : message.destinationType with
  | counter =>
    rw [htype] at h
    obtain ⟨opts, -, h⟩ := bind_eq_ok.1 h
    obtain ⟨counter, hnew, h⟩ := bind_eq_ok.1 h
    obtain ⟨values, -, hnew⟩ := bind_eq_ok.1 hnew
    cases h
    cases hnew
    exact and_iff_left fun _ => .inl rfl
  | gauge =>
    rw [htype] at h
    obtain ⟨opts, -, h⟩ := bind_eq_ok.1 h
    obtain ⟨gauge, hnew, h⟩ := bind_eq_ok.1 h
    cases h
    exact and_iff_left fun _ => Gauge.canTake_new hnew _
  | timer =>
    rw [htype] at h
    obtain ⟨opts, -, h⟩ := bind_eq_ok.1 h
    obtain ⟨timer, hnew, h⟩ := bind_eq_ok.1 h
    obtain ⟨values, hvalues, hnew⟩ := bind_eq_ok.1 hnew
    cases h
    cases hnew
    obtain rfl := Statistics.new_ok hvalues
    exact and_iff_left fun _ => Statistics.canTake_initial _ _ _
  | _ =>
    rw [htype] at h
    cases h
    rfl

end Handystats
