/-
The law of a counter: its value is the amount of the last `init` and the
changes made since, and its statistics are fed the running totals.

That a counter was not initialised yet is encoded as `m_timestamp ==
time_point()`. The timestamp of an initialised counter can be that one too;
the next change then initialises it again, and what it had counted is lost.
And the statistics take a `double`, which not every total is. `counter_law_iff`
says that nothing else goes wrong: the timestamps may come in any order.
-/
import Handystats.IntervalStatistics
import Handystats.Metrics

namespace Handystats

open Runs

/-- A call of a counter. -/
inductive CounterCall where
  | init (initValue : Int64) (timestamp : Int)
  | increment (incrValue : Int64) (timestamp : Int)
  | decrement (decrValue : Int64) (timestamp : Int)

namespace CounterCall

/-- The time a call is made for. -/
def timestamp : CounterCall → Int
  | .init _ t | .increment _ t | .decrement _ t => t

/-- The call is an `init`. -/
def isInit : CounterCall → Bool
  | .init _ _ => true
  | _ => false

/-- What becomes of `m_value`. -/
def apply : CounterCall → Int64 → Int64
  | .init initValue _, _ => initValue
  | .increment incrValue _, value => value + incrValue
  | .decrement decrValue _, value => value - decrValue

/-- The amount by which `increment` and `decrement` change the total. -/
def change : CounterCall → Int
  | .init _ _ => 0
  | .increment incrValue _ => incrValue.toInt
  | .decrement decrValue _ => -decrValue.toInt

theorem apply_ofInt {call : CounterCall} (h : call.isInit = false) (n : Int) :
    call.apply (Int64.ofInt n) = Int64.ofInt (n + call.change) := by
  cases call with
  | init v t => cases h
  | increment d t => simp [apply, change]
  | decrement d t => simp [apply, change, ← sub_eq_add_neg]

/-! ## What the calls come to -/

/-- The amount of the last `init`, 0 if there was none, and the changes made
since. -/
def sinceInit (calls : List CounterCall) : Int × List Int :=
  calls.foldl
    (fun (amount, changes) call =>
      match call with
      | .init initValue _ => (initValue.toInt, [])
      | .increment incrValue _ => (amount, changes ++ [incrValue.toInt])
      | .decrement decrValue _ => (amount, changes ++ [-decrValue.toInt]))
    (0, [])

/-- The amount of the last `init` plus the changes made since. -/
def total (calls : List CounterCall) : Int := (sinceInit calls).1 + (sinceInit calls).2.sum

/-- The running totals since the last `init`, from its amount on. -/
def totals (calls : List CounterCall) : List Int :=
  (sinceInit calls).2.inits.map fun changes => (sinceInit calls).1 + changes.sum

theorem sinceInit_init (calls : List CounterCall) (v : Int64) (t : Int) :
    sinceInit (calls ++ [.init v t]) = (v.toInt, []) := by
  simp [sinceInit]

theorem sinceInit_change (calls : List CounterCall) {call : CounterCall} (h : call.isInit = false) :
    sinceInit (calls ++ [call]) = ((sinceInit calls).1, (sinceInit calls).2 ++ [call.change]) := by
  cases call with
  | init v t => cases h
  | increment d t => simp [sinceInit, change]
  | decrement d t => simp [sinceInit, change]

theorem total_init (calls : List CounterCall) (v : Int64) (t : Int) :
    total (calls ++ [.init v t]) = v.toInt := by
  simp [total, sinceInit_init]

theorem total_change (calls : List CounterCall) {call : CounterCall} (h : call.isInit = false) :
    total (calls ++ [call]) = total calls + call.change := by
  simp [total, sinceInit_change calls h, add_assoc]

theorem totals_init (calls : List CounterCall) (v : Int64) (t : Int) :
    totals (calls ++ [.init v t]) = [v.toInt] := by
  simp [totals, sinceInit_init]

theorem totals_concat (calls : List CounterCall) (call : CounterCall) :
    ∃ before, totals (calls ++ [call]) = before ++ [total (calls ++ [call])] := by
  cases call with
  | init v t => exact ⟨[], by rw [totals, total, sinceInit_init]; simp⟩
  | increment d t => exact ⟨totals calls, by simp [totals, total, sinceInit, List.inits_append]⟩
  | decrement d t => exact ⟨totals calls, by simp [totals, total, sinceInit, List.inits_append]⟩

theorem totals_change (calls : List CounterCall) {call : CounterCall} (h : call.isInit = false) :
    totals (calls ++ [call]) = totals calls ++ [total calls + call.change] := by
  simp [totals, total, sinceInit_change calls h, List.inits_append, add_assoc]

end CounterCall

namespace Counter

variable {K : Type}

/-! ## One call -/

/-- What a counter calls of its statistics. -/
inductive StatisticsCall where
  | reset
  | update (value : Int64) (timestamp : Int)

/-- The values that are fed. -/
def StatisticsCall.fed (calls : List StatisticsCall) : List Int :=
  calls.filterMap fun
    | .reset => none
    | .update value _ => some (toDouble value.toInt)

theorem StatisticsCall.fed_append (calls calls' : List StatisticsCall) :
    fed (calls ++ calls') = fed calls ++ fed calls' :=
  List.filterMap_append ..

/-- The calls of `m_values` that a call of the counter makes. -/
def feeds (counter : Counter K) (call : CounterCall) : List StatisticsCall :=
  if call.isInit then [.reset, .update (call.apply counter.value) call.timestamp]
  else if counter.timestamp = timePointZero then
    [.reset, .update 0 call.timestamp, .update (call.apply 0) call.timestamp]
  else [.update (call.apply counter.value) (max counter.timestamp call.timestamp)]

/-- `m_value` and `m_timestamp` after a call. -/
def after (counter : Counter K) (call : CounterCall) : Int64 × Int :=
  if call.isInit then (call.apply counter.value, call.timestamp)
  else if counter.timestamp = timePointZero then (call.apply 0, call.timestamp)
  else (call.apply counter.value, max counter.timestamp call.timestamp)

/-- The last value that is fed is what the counter comes to. -/
theorem feeds_last (counter : Counter K) (call : CounterCall) :
    ∃ before, counter.feeds call = before ++ [.update (counter.after call).1 (counter.after call).2] := by
  unfold feeds after
  split_ifs
  · exact ⟨[.reset], rfl⟩
  · exact ⟨[.reset, .update 0 call.timestamp], rfl⟩
  · exact ⟨[], rfl⟩

section Cases

variable {counter : Counter K} {call : CounterCall} (hcall : call.isInit = false)

include hcall

theorem feeds_fresh (h₀ : counter.timestamp = timePointZero) :
    counter.feeds call = [.reset, .update 0 call.timestamp, .update (call.apply 0) call.timestamp] := by
  simp [feeds, hcall, h₀]

theorem feeds_change (h₀ : counter.timestamp ≠ timePointZero) :
    counter.feeds call =
      [.update (call.apply counter.value) (max counter.timestamp call.timestamp)] := by
  simp [feeds, hcall, h₀]

theorem after_fresh (h₀ : counter.timestamp = timePointZero) :
    counter.after call = (call.apply 0, call.timestamp) := by
  simp [after, hcall, h₀]

theorem after_change (h₀ : counter.timestamp ≠ timePointZero) :
    counter.after call = (call.apply counter.value, max counter.timestamp call.timestamp) := by
  simp [after, hcall, h₀]

end Cases

variable [Field K] [LinearOrder K] {pf : Platform K} {config : StatisticsConfig}
variable {counter counter' : Counter K} {values values' : Statistics K}

/-- One call. -/
def step (pf : Platform K) (counter : Counter K) : CounterCall → Except Fault (Counter K)
  | .init initValue timestamp => counter.init pf initValue timestamp
  | .increment incrValue timestamp => counter.increment pf incrValue timestamp
  | .decrement decrValue timestamp => counter.decrement pf decrValue timestamp

/-- A call of the statistics. -/
def feed (pf : Platform K) (values : Statistics K) : StatisticsCall → Except Fault (Statistics K)
  | .reset => values.reset pf
  | .update value timestamp => values.update pf (toDouble value.toInt) timestamp

theorem changed_ok {call : CounterCall} (hcall : call.isInit = false)
    (h : counter.changed pf call.apply call.timestamp = .ok counter') :
    ∃ values, run (feed pf) counter.values (counter.feeds call) = .ok values ∧
      counter' = ⟨values, (counter.after call).1, (counter.after call).2⟩ := by
  unfold changed at h
  by_cases h₀ : counter.timestamp = timePointZero
  · rw [if_pos h₀, init] at h
    rw [feeds_fresh hcall h₀, after_fresh hcall h₀]
    simp only [bind_eq_ok, Except.ok.injEq] at h
    obtain ⟨_, ⟨reset, hreset, first, hfirst, rfl⟩, second, hsecond, rfl⟩ := h
    simp only [lt_irrefl, if_false] at hsecond ⊢
    refine ⟨second, run_cons_ok.2 ⟨reset, hreset, run_cons_ok.2 ⟨first, hfirst, ?_⟩⟩, rfl⟩
    exact run_singleton_ok.2 hsecond
  · rw [if_neg h₀] at h
    rw [feeds_change hcall h₀, after_change hcall h₀]
    simp only [bind_eq_ok, Except.ok.injEq] at h
    obtain ⟨_, rfl, values, hvalues, rfl⟩ := h
    have hlast : (if counter.timestamp < call.timestamp then call.timestamp else counter.timestamp) =
        max counter.timestamp call.timestamp := by
      split_ifs <;> omega
    rw [hlast] at hvalues ⊢
    exact ⟨values, run_singleton_ok.2 hvalues, rfl⟩

/-- What a call does: it feeds the statistics, and sets value and timestamp. -/
theorem step_ok {call : CounterCall} (h : step pf counter call = .ok counter') :
    ∃ values, run (feed pf) counter.values (counter.feeds call) = .ok values ∧
      counter' = ⟨values, (counter.after call).1, (counter.after call).2⟩ := by
  cases call with
  | init v t =>
    simp only [step, init, bind_eq_ok, Except.ok.injEq] at h
    obtain ⟨reset, hreset, values, hvalues, rfl⟩ := h
    exact ⟨values, run_cons_ok.2 ⟨reset, hreset, run_singleton_ok.2 hvalues⟩, rfl⟩
  | increment d t => exact changed_ok rfl h
  | decrement d t => exact changed_ok rfl h

/-- One call, with a log of the calls of the statistics since the last
`init`. -/
def tracedStep (pf : Platform K) (state : Counter K × List StatisticsCall) (call : CounterCall) :
    Except Fault (Counter K × List StatisticsCall) := do
  let counter ← state.1.step pf call
  .ok (counter, (if call.isInit then [] else state.2) ++ state.1.feeds call)

theorem tracedStep_ok {state state' : Counter K × List StatisticsCall} {call : CounterCall}
    (h : tracedStep pf state call = .ok state') :
    ∃ values, run (feed pf) state.1.values (state.1.feeds call) = .ok values ∧
      state' = (⟨values, (state.1.after call).1, (state.1.after call).2⟩,
        (if call.isInit then [] else state.2) ++ state.1.feeds call) := by
  obtain ⟨_, hstep, hstate⟩ := bind_eq_ok.1 h
  obtain ⟨values, hvalues, rfl⟩ := step_ok hstep
  exact ⟨values, hvalues, (Except.ok.inj hstate).symm⟩

/-! ## The statistics -/

theorem feed_config {call : StatisticsCall} (h : feed pf values call = .ok values') :
    values'.config = values.config := by
  cases call with
  | reset =>
    unfold feed Statistics.reset at h
    split_ifs at h
    obtain rfl := Except.ok.inj h
    rfl
  | update v t => exact Statistics.step_config (c := .update (toDouble v.toInt) t) h

theorem run_feed_config {calls : List StatisticsCall} (h : run (feed pf) values calls = .ok values') :
    values'.config = values.config :=
  run_inv (I := fun _ st => st.config = values.config) (fun _ _ _ _ hI hs => (feed_config hs).trans hI)
    rfl h

/-- What is fed after a reset is what a fresh object is fed. -/
theorem run_reset {updates : List (Int64 × Int)}
    (h : run (feed pf) values (.reset :: updates.map fun u => .update u.1 u.2) = .ok values') :
    Statistics.RunsTo pf values.config (updates.map fun u => .update (toDouble u.1.toInt) u.2) values' := by
  obtain ⟨fresh, hreset, hupdates⟩ := run_cons_ok.1 h
  unfold feed Statistics.reset at hreset
  split_ifs at hreset
  obtain rfl := Except.ok.inj hreset
  rw [run, List.foldlM_map] at hupdates
  rw [Statistics.RunsTo, run, List.foldlM_map]
  exact hupdates

/-! ## The law -/

/-- Value and statistics are those of the running totals. -/
structure Law (pf : Platform K) (config : StatisticsConfig) (calls : List CounterCall)
    (state : Counter K × List StatisticsCall) : Prop where
  value : state.1.value = Int64.ofInt (CounterCall.total calls)
  fed : StatisticsCall.fed state.2 = (CounterCall.totals calls).map fun total => (Int64.ofInt total).toInt
  statistics : ∃ statisticsCalls, Statistics.RunsTo pf config statisticsCalls state.1.values ∧
    Call.values statisticsCalls =
      (CounterCall.totals calls).map fun total => ((Int64.ofInt total).toInt : K)

/-- The call does not initialise a counter again that was called before. -/
def Initialised (calls : List CounterCall) (state : Counter K × List StatisticsCall)
    (call : CounterCall) : Prop :=
  call.isInit = true ∨ calls = [] ∨ state.1.timestamp ≠ timePointZero

/-- What the call brings the counter to is a `double`. -/
def TotalExact (calls : List CounterCall) (call : CounterCall) : Prop :=
  IsDouble (Int64.ofInt (CounterCall.total (calls ++ [call]))).toInt

instance (calls : List CounterCall) (call : CounterCall) : Decidable (TotalExact calls call) :=
  inferInstanceAs (Decidable (IsDouble _))

/-- The state of a counter after the calls, from its construction on. -/
structure Lawful (pf : Platform K) (config : StatisticsConfig) (calls : List CounterCall)
    (state : Counter K × List StatisticsCall) : Prop where
  config_eq : state.1.values.config = config
  fresh : calls = [] → state.2 = [] ∧ state.1.timestamp = timePointZero
  law : calls ≠ [] → Law pf config calls state

variable {calls : List CounterCall} {state state' : Counter K × List StatisticsCall}

/-- The law at a start: an `init`, or a first change, which makes one. -/
theorem law_start (updates : List (Int64 × Int)) {value : Int64} {t : Int}
    (hrun : run (feed pf) values (.reset :: updates.map fun u => .update u.1 u.2) = .ok values')
    (hvalue : value = Int64.ofInt (CounterCall.total calls))
    (htotals : updates.map Prod.fst = (CounterCall.totals calls).map Int64.ofInt)
    (hexact : ∀ u ∈ updates, IsDouble u.1.toInt) :
    Law pf values.config calls
      (⟨values', value, t⟩, .reset :: updates.map fun u => .update u.1 u.2) := by
  have hfed : (updates.map fun u => toDouble u.1.toInt) =
      (CounterCall.totals calls).map fun total => (Int64.ofInt total).toInt := by
    have htoInt := congrArg (List.map Int64.toInt) htotals
    rw [List.map_map, List.map_map] at htoInt
    rw [List.map_congr_left fun u hu => toDouble_eq_iff.2 (hexact u hu)]
    exact htoInt
  refine ⟨hvalue, ?_, _, run_reset hrun, ?_⟩
  · rw [← hfed]
    simp [StatisticsCall.fed, List.filterMap_map]
  · have hcast := congrArg (List.map fun value : Int => (value : K)) hfed
    rw [List.map_map, List.map_map] at hcast
    simpa [Call.values, List.filterMap_map, Function.comp_def] using hcast

theorem law_init {v : Int64} {t : Int} (hexact : TotalExact calls (.init v t))
    (hs : tracedStep pf state (.init v t) = .ok state') :
    Law pf state.1.values.config (calls ++ [.init v t]) state' := by
  obtain ⟨values, hvalues, rfl⟩ := tracedStep_ok hs
  rw [TotalExact, CounterCall.total_init, Int64.ofInt_toInt] at hexact
  refine law_start [(v, t)] hvalues ?_ ?_ (by simpa using hexact)
  · rw [CounterCall.total_init, Int64.ofInt_toInt]
    rfl
  · simp [CounterCall.totals_init]

theorem law_fresh {call : CounterCall} (hcall : call.isInit = false) (hlog : state.2 = [])
    (h₀ : state.1.timestamp = timePointZero) (hexact : TotalExact [] call)
    (hs : tracedStep pf state call = .ok state') : Law pf state.1.values.config [call] state' := by
  obtain ⟨values, hvalues, rfl⟩ := tracedStep_ok hs
  have htotal := CounterCall.total_change [] hcall
  have htotals := CounterCall.totals_change [] hcall
  have happly : call.apply 0 = Int64.ofInt (CounterCall.total [] + call.change) :=
    CounterCall.apply_ofInt hcall 0
  rw [TotalExact, htotal, ← happly] at hexact
  rw [feeds_fresh hcall h₀] at hvalues ⊢
  rw [after_fresh hcall h₀, hlog, ite_self, List.nil_append]
  have hzero : IsDouble 0 := by decide
  refine law_start [(0, call.timestamp), (call.apply 0, call.timestamp)] hvalues ?_ ?_
    (by simp [hzero, hexact])
  · rw [List.nil_append] at htotal
    rw [htotal]
    exact happly
  · rw [List.nil_append] at htotals
    rw [htotals]
    exact congrArg (fun value => [0, value]) happly

/-- A change of an initialised counter. -/
theorem Law.change (h : Law pf config calls state) {call : CounterCall} (hcall : call.isInit = false)
    (h₀ : state.1.timestamp ≠ timePointZero) (hexact : TotalExact calls call)
    (hs : tracedStep pf state call = .ok state') : Law pf config (calls ++ [call]) state' := by
  obtain ⟨values, hvalues, rfl⟩ := tracedStep_ok hs
  obtain ⟨hvalue, hfed, statisticsCalls, hrun, hcalls⟩ := h
  have happly : call.apply state.1.value = Int64.ofInt (CounterCall.total calls + call.change) := by
    rw [hvalue, CounterCall.apply_ofInt hcall]
  rw [TotalExact, CounterCall.total_change calls hcall, ← happly] at hexact
  have hdouble := toDouble_eq_iff.2 hexact
  rw [feeds_change hcall h₀] at hvalues ⊢
  rw [after_change hcall h₀, hcall]
  refine ⟨?_, ?_, ?_⟩
  · rw [CounterCall.total_change calls hcall]
    exact happly
  · rw [CounterCall.totals_change calls hcall, List.map_append, ← hfed, List.map_singleton,
      ← happly, ← hdouble]
    exact StatisticsCall.fed_append ..
  · have hstep : Statistics.step pf state.1.values (.update (toDouble (call.apply state.1.value).toInt)
        (max state.1.timestamp call.timestamp)) = .ok values := run_singleton_ok.1 hvalues
    refine ⟨_, run_append_ok.2 ⟨_, hrun, run_singleton_ok.2 hstep⟩, ?_⟩
    rw [Call.values_concat_update, hcalls, CounterCall.totals_change calls hcall, List.map_append, hdouble,
      happly]
    rfl

theorem step_lawful (h : Lawful pf config calls state) {call : CounterCall}
    (hinit : Initialised calls state call) (hexact : TotalExact calls call) (hs : tracedStep pf state call = .ok state') :
    Lawful pf config (calls ++ [call]) state' := by
  refine ⟨?_, by simp, fun _ => ?_⟩
  · obtain ⟨values, hvalues, rfl⟩ := tracedStep_ok hs
    exact (run_feed_config hvalues).trans h.config_eq
  · cases hcall : call.isInit with
    | true =>
      cases call with
      | init v t => exact h.config_eq ▸ law_init hexact hs
      | increment d t => cases hcall
      | decrement d t => cases hcall
    | false =>
      by_cases hnil : calls = []
      · obtain ⟨hlog, h₀⟩ := h.fresh hnil
        subst hnil
        exact h.config_eq ▸ law_fresh hcall hlog h₀ hexact hs
      · have h₀ : state.1.timestamp ≠ timePointZero := by
          rcases hinit with hi | hn | h₀
          · rw [hcall] at hi; cases hi
          · exact absurd hn hnil
          · exact h₀
        exact (h.law hnil).change hcall h₀ hexact hs

/-- One value more is fed than there are running totals. -/
theorem not_law_again {call : CounterCall} (h : Law pf config calls state) (hcall : call.isInit = false)
    (h₀ : state.1.timestamp = timePointZero) (hs : tracedStep pf state call = .ok state') :
    ¬ Law pf config (calls ++ [call]) state' := by
  intro h'
  obtain ⟨values, -, rfl⟩ := tracedStep_ok hs
  have hfed := congrArg List.length h'.fed
  have hfed₀ := congrArg List.length h.fed
  rw [hcall, feeds_fresh hcall h₀, CounterCall.totals_change calls hcall] at hfed
  simp [StatisticsCall.fed] at hfed hfed₀
  omega

/-- The total that is fed last is the one that is due. -/
theorem Law.totalExact {call : CounterCall} (h : Law pf config (calls ++ [call]) state')
    (hs : tracedStep pf state call = .ok state') : TotalExact calls call := by
  obtain ⟨values, -, rfl⟩ := tracedStep_ok hs
  obtain ⟨before, hfeeds⟩ := feeds_last state.1 call
  obtain ⟨earlier, htotals⟩ := CounterCall.totals_concat calls call
  have hfed := congrArg List.getLast? h.fed
  have hvalue : (state.1.after call).1 = _ := h.value
  rw [hfeeds, htotals, ← List.append_assoc, StatisticsCall.fed_append, List.map_append, hvalue] at hfed
  simp only [StatisticsCall.fed, List.filterMap_cons_some, List.filterMap_nil, List.map_cons, List.map_nil,
    List.getLast?_append, List.getLast?_singleton, Option.some_or, Option.some.injEq] at hfed
  exact toDouble_eq_iff.1 hfed

theorem lawful_new {opts : CounterConfig} (h : Counter.new pf opts = .ok counter) :
    Lawful pf opts.values [] (counter, []) := by
  obtain ⟨values, hnew, hcounter⟩ := bind_eq_ok.1 h
  obtain rfl := Except.ok.inj hcounter
  refine ⟨?_, fun _ => ⟨rfl, rfl⟩, fun hne => absurd rfl hne⟩
  have hreset : feed pf _ .reset = .ok values := hnew
  exact feed_config hreset

/-- **A counter follows its law** after each of the calls if, and only if, no
change is made to a counter that was called before and has the default time
point for its timestamp (the latest timestamp since the last `init`), and every
total it comes to is a `double`. -/
theorem counter_law_iff {opts : CounterConfig} (hnew : Counter.new pf opts = .ok counter)
    (h : run (tracedStep pf) (counter, []) calls = .ok state) :
    (∀ pre state', pre <+: calls → pre ≠ [] → run (tracedStep pf) (counter, []) pre = .ok state' →
        Law pf opts.values pre state') ↔
      Throughout (tracedStep pf) (counter, []) calls fun calls state call =>
        Initialised calls state call ∧ TotalExact calls call := by
  constructor
  · intro hlaw pre call post state₁ hcalls hpre
    subst hcalls
    obtain ⟨_, hpre', hrest⟩ := run_append_ok.1 h
    obtain rfl := Except.ok.inj (hpre.symm.trans hpre')
    obtain ⟨state₂, hs, -⟩ := run_cons_ok.1 hrest
    have hafter := hlaw (pre ++ [call]) state₂ (by simp) (by simp)
      (run_append_ok.2 ⟨state₁, hpre, run_singleton_ok.2 hs⟩)
    refine ⟨?_, hafter.totalExact hs⟩
    by_contra hnot
    simp only [Initialised, not_or, not_not, Bool.not_eq_true] at hnot
    obtain ⟨hcall, hne, h₀⟩ := hnot
    have hbefore := hlaw pre state₁ (List.prefix_append _ _) hne hpre
    exact not_law_again hbefore hcall h₀ hs hafter
  · intro hthroughout pre state' hprefix hne hpre
    obtain ⟨post, rfl⟩ := hprefix
    have hlawful : Lawful pf opts.values pre state' :=
      run_inv_throughout (I := Lawful pf opts.values) (fun _ _ _ _ hI hc hs => step_lawful hI hc.1 hc.2 hs)
        (lawful_new hnew) hpre hthroughout.of_append
    exact hlawful.law hne

/-- A counter without a histogram, for concrete runs. -/
def sampleOpts : CounterConfig := ⟨Statistics.sampleConfig 0 (Tag.value.bit ||| Tag.max.bit)⟩

theorem counter_law_sample :
    ∃ (counter : Counter ℚ) (state : Counter ℚ × List StatisticsCall),
      Counter.new (.inUnit .nsec) sampleOpts = .ok counter ∧
      run (tracedStep (.inUnit .nsec)) (counter, []) [.init 10 5, .increment 3 2] = .ok state ∧
      Law (.inUnit .nsec) sampleOpts.values [.init 10 5, .increment 3 2] state := by
  let counter : Counter ℚ := ⟨Statistics.initial sampleOpts.values, 0, timePointZero⟩
  obtain ⟨state, h⟩ := exists_ok_of_toBool (x := run (tracedStep (.inUnit .nsec)) (counter, [])
    [.init 10 5, .increment 3 2]) (by decide +kernel)
  have hfollows : Throughout (tracedStep (.inUnit .nsec)) (counter, []) [.init 10 5, .increment 3 2]
      fun calls state call => Initialised calls state call ∧ TotalExact calls call := by
    refine throughout_cons ⟨.inl rfl, by decide⟩ fun m hm =>
      throughout_cons ⟨.inr (.inr ?_), by decide⟩ fun _ _ => throughout_nil
    obtain ⟨values, -, rfl⟩ := tracedStep_ok hm
    change (5 : Int) ≠ 0
    decide
  exact ⟨counter, state, rfl, h, (counter_law_iff rfl h).2 hfollows _ _ (List.prefix_refl _) (by simp) h⟩

/-- An `init` at the default time point is forgotten by the next change. -/
theorem init_at_default_forgotten :
    ∃ (counter : Counter ℚ) (state : Counter ℚ × List StatisticsCall),
      Counter.new (.inUnit .nsec) sampleOpts = .ok counter ∧
      run (tracedStep (.inUnit .nsec)) (counter, []) [.init 5 0, .increment 3 10] = .ok state ∧
      state.1.value = 3 ∧ CounterCall.total [.init 5 0, .increment 3 10] = 8 ∧
      ¬ Law (.inUnit .nsec) sampleOpts.values [.init 5 0, .increment 3 10] state := by
  let counter : Counter ℚ := ⟨Statistics.initial sampleOpts.values, 0, timePointZero⟩
  obtain ⟨state, h⟩ := exists_ok_of_toBool (x := run (tracedStep (.inUnit .nsec)) (counter, [])
    [.init 5 0, .increment 3 10]) (by decide +kernel)
  have hvalue : (run (tracedStep (.inUnit .nsec)) (counter, []) [.init 5 0, .increment 3 10]).map
      (fun state => state.1.value) = .ok 3 := by decide +kernel
  rw [h] at hvalue
  have hthree : state.1.value = 3 := Except.ok.inj hvalue
  refine ⟨counter, state, rfl, h, hthree, by decide, fun hlaw => ?_⟩
  have := hlaw.value
  rw [hthree] at this
  exact absurd this (by decide)

/-- Of `2 ^ 53 + 1` the statistics are fed `2 ^ 53`. -/
example : StatisticsCall.fed (feeds (⟨Statistics.initial sampleOpts.values, 5, 5⟩ : Counter ℚ)
    (.increment (2 ^ 53 - 4) 10)) = [2 ^ 53] := by
  decide +kernel

end Counter

end Handystats
