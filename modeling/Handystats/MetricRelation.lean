/-
Two metrics that differ in their statistics only.

`Related R` lifts a relation between statistics to the pointers to metrics.
What `update_metrics` does to a metric is `mapStatistics`; a message keeps
metrics related wherever `update` does it to their statistics (`Fed`).
-/
import Handystats.EffectiveOptions

namespace Handystats

open Runs

variable {K : Type} [Field K] [LinearOrder K] {env : Environment K} {cfg : Config} {pf : Platform K}

namespace MetricPtr

/-- The same metric, but for its statistics; those are in the relation. -/
inductive Related (R : Statistics K → Statistics K → Prop) : MetricPtr K → MetricPtr K → Prop
  | same (metricPtr : MetricPtr K) : Related R metricPtr metricPtr
  | counter {counter : Counter K} {values : Statistics K} (h : R counter.values values) :
    Related R (.counter (some counter)) (.counter (some { counter with values := values }))
  | gauge {gauge : Gauge K} {values : Statistics K} (h : R gauge.values values) :
    Related R (.gauge (some gauge)) (.gauge (some ⟨values⟩))
  | timer {timer : Timer (Statistics K)} {values : Statistics K} (h : R timer.values values) :
    Related R (.timer (some timer)) (.timer (some { timer with values := values }))

/-- The statistics of a metric. -/
def statistics : MetricPtr K → Option (Statistics K)
  | .counter metric => metric.map Counter.values
  | .gauge metric => metric.map Gauge.values
  | .timer metric => metric.map Timer.values
  | .attribute _ => none

/-- The pointer, to a metric with its statistics changed. -/
def mapStatistics (f : Statistics K → Statistics K) : MetricPtr K → MetricPtr K
  | .counter metric => .counter (metric.map fun counter => { counter with values := f counter.values })
  | .gauge metric => .gauge (metric.map fun gauge => ⟨f gauge.values⟩)
  | .timer metric => .timer (metric.map fun timer => { timer with values := f timer.values })
  | .attribute metric => .attribute metric

theorem updateMetric_eq (t : Int) (p : MetricPtr K) :
    Internal.updateMetric env t p = p.mapStatistics fun st => st.updateTime env.platform t := by
  cases p <;> rfl

omit [Field K] [LinearOrder K] in
theorem mapStatistics_mapStatistics (f g : Statistics K → Statistics K) (p : MetricPtr K) :
    (p.mapStatistics f).mapStatistics g = p.mapStatistics (g ∘ f) := by
  rcases p with (_ | _) | (_ | _) | (_ | _) | _
  all_goals rfl

variable {p q : MetricPtr K} {R R' : Statistics K → Statistics K → Prop}

namespace Related

/-! The same, for two metrics rather than for one and what became of it. -/

omit [Field K] [LinearOrder K] in
theorem of_counter {a b : Counter K} (h : R a.values b.values) (hrest : { a with values := b.values } = b) :
    Related R (.counter (some a)) (.counter (some b)) := by
  rw [← hrest]
  exact .counter h

omit [Field K] [LinearOrder K] in
theorem of_gauge {a b : Gauge K} (h : R a.values b.values) : Related R (.gauge (some a)) (.gauge (some b)) :=
  .gauge h

omit [Field K] [LinearOrder K] in
theorem of_timer {a b : Timer (Statistics K)} (h : R a.values b.values) (hrest : { a with values := b.values } = b) :
    Related R (.timer (some a)) (.timer (some b)) := by
  rw [← hrest]
  exact .timer h

omit [Field K] [LinearOrder K] in
theorem isNull (h : Related R p q) : p.isNull = q.isNull := by
  cases h <;> rfl

omit [Field K] [LinearOrder K] in
theorem options (hconfig : ∀ a b, R a b → a.config = b.config) (h : Related R p q) : p.options = q.options := by
  cases h with
  | same => rfl
  | counter h => exact congrArg (fun config => some (MetricOptions.mk none config)) (hconfig _ _ h)
  | gauge h => exact congrArg (fun config => some (MetricOptions.mk none config)) (hconfig _ _ h)
  | @timer timer _ h =>
    exact congrArg (fun config => some (MetricOptions.mk timer.idleTimeout config)) (hconfig _ _ h)

omit [Field K] [LinearOrder K] in
theorem mono (hR : ∀ a b, R a b → R' a b) (h : Related R p q) : Related R' p q := by
  cases h with
  | same => exact .same _
  | counter h => exact .counter (hR _ _ h)
  | gauge h => exact .gauge (hR _ _ h)
  | timer h => exact .timer (hR _ _ h)

omit [Field K] [LinearOrder K] in
theorem symm (hR : ∀ a b, R a b → R b a) (h : Related R p q) : Related R q p := by
  cases h with
  | same => exact .same _
  | counter h => exact of_counter (hR _ _ h) rfl
  | gauge h => exact of_gauge (hR _ _ h)
  | timer h => exact of_timer (hR _ _ h) rfl

omit [Field K] [LinearOrder K] in
/-- Where a change makes related statistics the same, it makes related metrics
the same. -/
theorem mapStatistics_eq {f : Statistics K → Statistics K} (hf : ∀ a b, R a b → f a = f b)
    (h : Related R p q) : p.mapStatistics f = q.mapStatistics f := by
  cases h with
  | same => rfl
  | @counter counter _ h =>
    exact congrArg (fun st => MetricPtr.counter (some { counter with values := st })) (hf _ _ h)
  | gauge h => exact congrArg (fun st => MetricPtr.gauge (some ⟨st⟩)) (hf _ _ h)
  | @timer timer _ h =>
    exact congrArg (fun st => MetricPtr.timer (some { timer with values := st })) (hf _ _ h)

omit [Field K] [LinearOrder K] in
/-- A change on one side, that the relation does not see. -/
theorem mapStatistics_left {f : Statistics K → Statistics K} (hf : ∀ a b, R a b → R (f a) b)
    (hself : ∀ st, p.statistics = some st → R (f st) st) (h : Related R p q) :
    Related R (p.mapStatistics f) q := by
  cases h with
  | same =>
    rcases p with (_ | counter) | (_ | gauge) | (_ | timer) | metric
    case counter.some => exact of_counter (hself _ rfl) rfl
    case gauge.some => exact of_gauge (hself _ rfl)
    case timer.some => exact of_timer (hself _ rfl) rfl
    all_goals exact .same _
  | counter h => exact of_counter (hf _ _ h) rfl
  | gauge h => exact of_gauge (hf _ _ h)
  | timer h => exact of_timer (hf _ _ h) rfl

end Related

/-- What a message for the time `u` makes of related statistics: a value that it
feeds, at that time or later, leaves them in the second relation, and so does a
message that feeds none. -/
structure Fed (pf : Platform K) (u : Int) (R R' : Statistics K → Statistics K → Prop) : Prop where
  config : ∀ a b, R a b → a.config = b.config
  kept : ∀ a b, R a b → R' a b
  update : ∀ a b a' b' v t, R a b → u ≤ t → a.update pf v t = .ok a' → b.update pf v t = .ok b' → R' a' b'

end MetricPtr

/-! ## Messages -/

open MetricPtr

variable {R R' : Statistics K → Statistics K → Prop} {u : Int} {values : Statistics K}

theorem Counter.changed_related (hR : Fed pf u R R') {counter a b : Counter K} {change : Int64 → Int64}
    (h : R counter.values values) (ha : counter.changed pf change u = .ok a)
    (hb : ({ counter with values := values } : Counter K).changed pf change u = .ok b) :
    Related R' (.counter (some a)) (.counter (some b)) := by
  by_cases h₀ : counter.timestamp = timePointZero
  · -- The first change makes the counter anew.
    have hreset : values.reset pf = counter.values.reset pf := by
      unfold Statistics.reset
      rw [hR.config _ _ h]
    unfold Counter.changed Counter.init at ha hb
    rw [if_pos h₀] at ha hb
    dsimp only at hb
    rw [hreset] at hb
    obtain rfl := Except.ok.inj (ha.symm.trans hb)
    exact .same _
  · unfold Counter.changed at ha hb
    rw [if_neg h₀] at ha hb
    obtain ⟨_, hmade, ha⟩ := bind_eq_ok.1 ha
    obtain ⟨va, hva, ha⟩ := bind_eq_ok.1 ha
    obtain ⟨_, hmade', hb⟩ := bind_eq_ok.1 hb
    obtain ⟨vb, hvb, hb⟩ := bind_eq_ok.1 hb
    cases hmade
    cases hmade'
    cases ha
    cases hb
    have hlast : u ≤ if counter.timestamp < u then u else counter.timestamp := by
      split_ifs <;> omega
    exact .of_counter (hR.update _ _ _ _ _ _ h hlast hva hvb) rfl

theorem Gauge.set_related (hR : Fed pf u R R') {gauge a b : Gauge K} {v : K} (h : R gauge.values values)
    (ha : gauge.set pf v u = .ok a) (hb : (⟨values⟩ : Gauge K).set pf v u = .ok b) :
    Related R' (.gauge (some a)) (.gauge (some b)) := by
  obtain ⟨va, hva, ha⟩ := bind_eq_ok.1 ha
  obtain ⟨vb, hvb, hb⟩ := bind_eq_ok.1 hb
  cases ha
  cases hb
  exact .of_gauge (hR.update _ _ _ _ _ _ h le_rfl hva hvb)

/-! What becomes of a timer's instances has nothing to do with its statistics. -/

omit [Field K] [LinearOrder K] in
theorem Timer.checkIdleTimeout_with (ck : Clock) (timer : Timer (Statistics K)) (values : Statistics K)
    (force : Bool) :
    ({ timer with values := values } : Timer (Statistics K)).checkIdleTimeout ck u force =
      { timer.checkIdleTimeout ck u force with values := values } := by
  unfold Timer.checkIdleTimeout
  dsimp only
  split_ifs <;> rfl

theorem Timer.feed_related (hR : Fed pf u R R') {timer a b : Timer (Statistics K)} {value : Int}
    (h : R timer.values values) {va vb : Statistics K} (hva : Timer.feed pf timer.values value u = .ok va)
    (hvb : Timer.feed pf values value u = .ok vb) (ha : { timer with values := va } = a)
    (hb : { timer with values := vb } = b) : Related R' (.timer (some a)) (.timer (some b)) := by
  subst ha hb
  exact .of_timer (hR.update _ _ _ _ _ _ h le_rfl hva hvb) rfl

theorem Timer.stop_related (hR : Fed pf u R R') {timer a b : Timer (Statistics K)} {id : UInt64}
    (h : R timer.values values) (ha : timer.stop pf.clock (Timer.feed pf) id u = .ok a)
    (hb : ({ timer with values := values } : Timer (Statistics K)).stop pf.clock (Timer.feed pf) id u = .ok b) :
    Related R' (.timer (some a)) (.timer (some b)) := by
  unfold Timer.stop at ha hb
  rw [Timer.checkIdleTimeout_with _ timer values] at hb
  have hvalues := Timer.checkIdleTimeout_values pf.clock timer u false
  generalize timer.checkIdleTimeout pf.clock u false = checked at ha hb hvalues
  rw [← hvalues] at h
  unfold Timer.stopped at ha hb
  cases hid : checked.instances id with
  | none =>
    simp only [hid] at ha hb
    cases ha
    cases hb
    exact .timer (hR.kept _ _ h)
  | some instanceState =>
    simp only [hid] at ha hb
    split_ifs at ha hb
    · cases ha
      cases hb
      exact .of_timer (hR.kept _ _ h) rfl
    · obtain ⟨va, hva, ha⟩ := bind_eq_ok.1 ha
      obtain ⟨vb, hvb, hb⟩ := bind_eq_ok.1 hb
      cases ha
      cases hb
      exact .of_timer (hR.update _ _ _ _ _ _ h le_rfl hva hvb) rfl

omit [Field K] [LinearOrder K] in
theorem Timer.heartbeat_related {ck : Clock} {timer : Timer (Statistics K)} {id : UInt64}
    (h : R timer.values values) :
    Related R (.timer (some (timer.heartbeat ck id u)))
      (.timer (some (({ timer with values := values } : Timer (Statistics K)).heartbeat ck id u))) := by
  unfold Timer.heartbeat
  rw [Timer.checkIdleTimeout_with _ timer values]
  rw [← Timer.checkIdleTimeout_values ck timer u false] at h
  generalize timer.checkIdleTimeout ck u false = checked at h
  unfold Timer.heartbeaten
  cases checked.instances id with
  | none => exact .timer h
  | some instanceState =>
    dsimp only
    split_ifs
    · exact .of_timer h rfl
    · exact .of_timer h rfl

variable {message : EventMessage} (hR : Fed env.platform message.timestamp R R')

include hR

theorem CounterEvents.processEvent_related {opts : CounterConfig} {counter : Counter K}
    {r r' : Counter K × Option PayloadKind} (h : R counter.values values)
    (hr : processEvent env opts counter message = .ok r)
    (hr' : processEvent env opts { counter with values := values } message = .ok r') :
    Related R' (.counter (some r.1)) (.counter (some r'.1)) := by
  unfold processEvent at hr hr'
  split_ifs at hr hr'
  · obtain rfl := Except.ok.inj (hr.symm.trans hr')
    exact .same _
  · obtain ⟨a, ha, hr⟩ := bind_eq_ok.1 hr
    obtain ⟨b, hb, hr'⟩ := bind_eq_ok.1 hr'
    cases hr
    cases hr'
    unfold processIncrementEvent Counter.increment at ha hb
    exact Counter.changed_related hR h ha hb
  · obtain ⟨a, ha, hr⟩ := bind_eq_ok.1 hr
    obtain ⟨b, hb, hr'⟩ := bind_eq_ok.1 hr'
    cases hr
    cases hr'
    unfold processDecrementEvent Counter.decrement at ha hb
    exact Counter.changed_related hR h ha hb
  · cases hr
    cases hr'
    exact .counter (hR.kept _ _ h)

theorem GaugeEvents.processEvent_related {opts : GaugeConfig} {gauge : Gauge K}
    {r r' : Gauge K × Option PayloadKind} (h : R gauge.values values)
    (hr : processEvent env opts gauge message = .ok r) (hr' : processEvent env opts ⟨values⟩ message = .ok r') :
    Related R' (.gauge (some r.1)) (.gauge (some r'.1)) := by
  unfold processEvent at hr hr'
  split_ifs at hr hr'
  · obtain rfl := Except.ok.inj (hr.symm.trans hr')
    exact .same _
  · obtain ⟨a, ha, hr⟩ := bind_eq_ok.1 hr
    obtain ⟨b, hb, hr'⟩ := bind_eq_ok.1 hr'
    cases hr
    cases hr'
    exact Gauge.set_related hR h ha hb
  · cases hr
    cases hr'
    exact .gauge (hR.kept _ _ h)

theorem TimerEvents.processEvent_related {opts : TimerConfig} {timer : Timer (Statistics K)}
    {r r' : Timer (Statistics K) × Option PayloadKind} (h : R timer.values values)
    (hr : processEvent env opts timer message = .ok r)
    (hr' : processEvent env opts { timer with values := values } message = .ok r') :
    Related R' (.timer (some r.1)) (.timer (some r'.1)) := by
  have hchecked : R' (timer.checkIdleTimeout env.platform.clock message.timestamp false).values values := by
    rw [Timer.checkIdleTimeout_values]
    exact hR.kept _ _ h
  unfold processEvent at hr hr'
  split_ifs at hr hr'
  · obtain rfl := Except.ok.inj (hr.symm.trans hr')
    exact .same _
  · cases hr
    cases hr'
    unfold Timer.start
    rw [Timer.checkIdleTimeout_with _ timer values]
    exact .of_timer hchecked rfl
  · obtain ⟨a, ha, hr⟩ := bind_eq_ok.1 hr
    obtain ⟨b, hb, hr'⟩ := bind_eq_ok.1 hr'
    cases hr
    cases hr'
    exact Timer.stop_related hR h ha hb
  · cases hr
    cases hr'
    unfold Timer.discard
    rw [Timer.checkIdleTimeout_with _ timer values]
    exact .of_timer hchecked rfl
  · cases hr
    cases hr'
    exact Timer.heartbeat_related (hR.kept _ _ h)
  · obtain ⟨a, ha, hr⟩ := bind_eq_ok.1 hr
    obtain ⟨b, hb, hr'⟩ := bind_eq_ok.1 hr'
    obtain ⟨va, hva, ha⟩ := bind_eq_ok.1 ha
    obtain ⟨vb, hvb, hb⟩ := bind_eq_ok.1 hb
    cases hr
    cases hr'
    exact Timer.feed_related hR h hva hvb (Except.ok.inj ha) (Except.ok.inj hb)
  · cases hr
    cases hr'
    exact .timer (hR.kept _ _ h)

/-- **A message keeps metrics related.** -/
theorem processMetric_related {heap heap' : AttributeHeap} {p q : MetricPtr K}
    {r r' : MetricPtr K × Option PayloadKind} (h : Related R p q)
    (hheap : p.which = .attribute → heap message.eventData = heap' message.eventData)
    (hp : processMetric env cfg heap p message = .ok r) (hq : processMetric env cfg heap' q message = .ok r') :
    Related R' r.1 r'.1 := by
  cases h with
  | same =>
    -- Only an attribute has a look at the heap.
    have hsame : processMetric env cfg heap p message = processMetric env cfg heap' p message := by
      rcases p with (_ | _) | (_ | _) | (_ | _) | (_ | metric)
      case attribute.some =>
        unfold processMetric AttributeEvents.processEvent AttributeEvents.processSetEvent
        rw [hheap rfl]
      all_goals rfl
    obtain rfl := Except.ok.inj (hp.symm.trans (hsame.trans hq))
    exact .same _
  | counter h =>
    obtain ⟨a, ha, hp⟩ := bind_eq_ok.1 hp
    obtain ⟨b, hb, hq⟩ := bind_eq_ok.1 hq
    cases hp
    cases hq
    exact CounterEvents.processEvent_related hR h ha hb
  | gauge h =>
    obtain ⟨a, ha, hp⟩ := bind_eq_ok.1 hp
    obtain ⟨b, hb, hq⟩ := bind_eq_ok.1 hq
    cases hp
    cases hq
    exact GaugeEvents.processEvent_related hR h ha hb
  | timer h =>
    obtain ⟨a, ha, hp⟩ := bind_eq_ok.1 hp
    obtain ⟨b, hb, hq⟩ := bind_eq_ok.1 hq
    cases hp
    cases hq
    exact TimerEvents.processEvent_related hR h ha hb

end Handystats
