/-
The lazy idle sweep of `metrics::timer` is unobservable.

The sweep removes expired instances only, and an instance that is expired
stays so (`expired_mono`): `stop` and `heartbeat` drop it themselves. So the
timer and the reference without `check_idle_timeout` run in lockstep
(`step_swept`). What the reference holds can be read off the history of the
calls (`Live`), and with it what `stop` feeds to the statistics (`Fed`).
-/
import Handystats.Library.Runs
import Handystats.Timer

namespace Handystats.Timer

open Runs

variable {S : Type} {ck : Clock} {feed : S → Int → Int → Except Fault S}

/-! ## The simulation -/

theorem expired_mono {instanceState : InstanceState} {idleTimeout : Duration} {t t' : Int}
    (h : instanceState.expired ck idleTimeout t = true) (ht : t ≤ t') :
    instanceState.expired ck idleTimeout t' = true := by
  simp only [InstanceState.expired, Bool.and_eq_true, decide_eq_true_eq] at *
  omega

/-- The timer has what the reference has, up to instances that are expired by
`now`. -/
structure Swept (ck : Clock) (now : Int) (tm ref : Timer S) : Prop where
  idleTimeout : tm.idleTimeout = ref.idleTimeout
  values : tm.values = ref.values
  instances : ∀ id, tm.instances id = ref.instances id ∨
    (tm.instances id = none ∧ ∃ instanceState, ref.instances id = some instanceState ∧
      instanceState.expired ck ref.idleTimeout now = true)

namespace Swept

variable {now t : Int} {tm ref : Timer S}

theorem mono (h : Swept ck now tm ref) (ht : now ≤ t) : Swept ck t tm ref := by
  refine ⟨h.idleTimeout, h.values, fun id => ?_⟩
  rcases h.instances id with heq | ⟨hnone, i, hi, hexp⟩
  · exact .inl heq
  · exact .inr ⟨hnone, i, hi, expired_mono hexp ht⟩

/-- Sweeping at any moment removes nothing else. -/
theorem check (h : Swept ck t tm ref) (force : Bool) :
    Swept ck t (tm.checkIdleTimeout ck t force) ref := by
  unfold checkIdleTimeout
  split_ifs
  · exact h
  refine ⟨h.idleTimeout, h.values, fun id => ?_⟩
  rcases h.instances id with heq | ⟨hnone, hexp⟩
  · cases hi : ref.instances id with
    | none => exact .inl (by simp [heq, hi])
    | some i =>
      by_cases hexp : i.expired ck tm.idleTimeout t = true
      · exact .inr ⟨by simp [heq, hi, hexp], i, rfl, by rwa [← h.idleTimeout]⟩
      · exact .inl (by simp [heq, hi, hexp])
  · exact .inr ⟨by simp [hnone], hexp⟩

/-- Both write one instance. -/
theorem write (h : Swept ck t tm ref) (id : UInt64) (i : Option InstanceState) :
    Swept ck t { tm with instances := Function.update tm.instances id i }
      { ref with instances := Function.update ref.instances id i } := by
  refine ⟨h.idleTimeout, h.values, fun id' => ?_⟩
  by_cases hid : id' = id
  · subst hid
    exact .inl (by simp)
  · simpa [Function.update_of_ne hid] using h.instances id'

theorem erase (h : Swept ck t tm ref) (id : UInt64) : Swept ck t (tm.erase id) (ref.erase id) :=
  h.write id none

/-- The reference drops what the timer has swept. -/
theorem drop (h : Swept ck t tm ref) {id : UInt64} (hnone : tm.instances id = none) :
    Swept ck t tm (ref.erase id) := by
  refine ⟨h.idleTimeout, h.values, fun id' => ?_⟩
  by_cases hid : id' = id
  · subst hid
    exact .inl (by simp [Timer.erase, hnone])
  · simpa [Timer.erase, Function.update_of_ne hid] using h.instances id'

theorem expired_eq (h : Swept ck t tm ref) (i : InstanceState) :
    i.expired ck tm.idleTimeout t = i.expired ck ref.idleTimeout t := by rw [h.idleTimeout]

theorem heartbeaten (h : Swept ck t tm ref) (id : UInt64) :
    Swept ck t (tm.heartbeaten ck id t) (ref.heartbeaten ck id t) := by
  unfold Timer.heartbeaten
  rcases h.instances id with heq | ⟨hnone, i, hi, hexp⟩
  · rw [heq]
    cases ref.instances id with
    | none => exact h
    | some i =>
      simp only [h.expired_eq]
      split_ifs
      · exact h.erase id
      · exact h.write id _
  · rw [hnone, hi]
    simp only [hexp, if_true]
    exact h.drop hnone

theorem set (h : Swept ck t tm ref) (d : Duration) :
    Lockstep (Swept ck t) (tm.set ck feed d t) (ref.set ck feed d t) := by
  unfold Timer.set
  rw [h.values]
  cases hfeed : feed ref.values (ck.countIn valueUnit d) t with
  | error e => exact .inl ⟨e, rfl, rfl⟩
  | ok values => exact .inr ⟨_, _, rfl, rfl, h.idleTimeout, rfl, h.instances⟩

theorem stopped (h : Swept ck t tm ref) (id : UInt64) :
    Lockstep (Swept ck t) (tm.stopped ck feed id t) (ref.stopped ck feed id t) := by
  unfold Timer.stopped
  rcases h.instances id with heq | ⟨hnone, i, hi, hexp⟩
  · rw [heq]
    cases ref.instances id with
    | none => exact .inr ⟨_, _, rfl, rfl, h⟩
    | some i =>
      simp only [h.expired_eq, h.values]
      split_ifs
      · exact .inr ⟨_, _, rfl, rfl, h.erase id⟩
      · cases hfeed : feed ref.values (instanceValue ck i t) t with
        | error e => exact .inl ⟨e, rfl, rfl⟩
        | ok values =>
          have hfed : Swept ck t { tm with values } { ref with values } :=
            ⟨h.idleTimeout, rfl, h.instances⟩
          exact .inr ⟨_, _, rfl, rfl, hfed.erase id⟩
  · rw [hnone, hi]
    simp only [hexp, if_true]
    exact .inr ⟨_, _, rfl, rfl, h.drop hnone⟩

end Swept

/-- One operation, of the timer and of the reference. -/
theorem step_swept {tm ref : Timer S} {op : Operation} (h : Swept ck op.timestamp tm ref) :
    Lockstep (Swept ck op.timestamp) (step ck feed tm op) (referenceStep ck feed ref op) := by
  cases op with
  | start id t => exact .inr ⟨_, _, rfl, rfl, (h.check false).write id _⟩
  | stop id t => exact (h.check false).stopped id
  | heartbeat id t => exact .inr ⟨_, _, rfl, rfl, (h.check false).heartbeaten id⟩
  | discard id t => exact .inr ⟨_, _, rfl, rfl, (h.check false).erase id⟩
  | set d t => exact h.set d
  | checkIdleTimeout t force => exact .inr ⟨_, _, rfl, rfl, h.check force⟩

/-- Operations in the order of their timestamps. -/
def InOrder (ops : List Operation) : Prop := ops.Pairwise fun a b => a.timestamp ≤ b.timestamp

/-- **The sweep is unobservable**, whatever the statistics are: the timer and
the reference fault alike, or leave the same statistics. -/
theorem run_swept {ops : List Operation} (hops : InOrder ops) (idleTimeout : Duration) (values : S) :
    Lockstep (fun tm ref => tm.values = ref.values)
      (run (step ck feed) (fresh idleTimeout values) ops)
      (run (referenceStep ck feed) (fresh idleTimeout values) ops) := by
  let R (ops : List Operation) (tm ref : Timer S) : Prop :=
    InOrder ops ∧ ∃ now, (∀ op ∈ ops, now ≤ op.timestamp) ∧ Swept ck now tm ref
  have hstep : ∀ op ops tm ref, R (op :: ops) tm ref →
      Lockstep (R ops) (step ck feed tm op) (referenceStep ck feed ref op) := by
    rintro op ops tm ref ⟨hops, now, hnow, h⟩
    obtain ⟨hle, hops⟩ := List.pairwise_cons.1 hops
    have hswept : Swept ck op.timestamp tm ref := h.mono (hnow op (by simp))
    rcases step_swept hswept with herr | ⟨tm', ref', htm, href, h'⟩
    · exact .inl herr
    · exact .inr ⟨tm', ref', htm, href, hops, op.timestamp, hle, h'⟩
  have hstart : R ops (fresh idleTimeout values) (fresh idleTimeout values) := by
    have hstart : ∀ now, Swept ck now (fresh idleTimeout values) (fresh idleTimeout values) :=
      fun now => ⟨rfl, rfl, fun _ => .inl rfl⟩
    cases ops with
    | nil => exact ⟨hops, 0, by simp, hstart 0⟩
    | cons op ops =>
      refine ⟨hops, op.timestamp, fun op' hop' => ?_, hstart _⟩
      rcases List.mem_cons.1 hop' with rfl | hop'
      · exact le_rfl
      · exact (List.pairwise_cons.1 hops).1 op' hop'
  rcases run_lockstep hstep hstart with h | ⟨tm, ref, htm, href, -, now, -, h⟩
  · exact .inl h
  · exact .inr ⟨tm, ref, htm, href, h.values⟩

/-! ## The history -/

/-- The operations neither start nor end the instance. -/
def Undisturbed (id : UInt64) (ops : List Operation) : Prop :=
  ∀ op ∈ ops, (∀ t, op ≠ .start id t) ∧ (∀ t, op ≠ .stop id t) ∧ ∀ t, op ≠ .discard id t

/-- The times of the instance's heartbeats. -/
def heartbeats (id : UInt64) (ops : List Operation) : List Int :=
  ops.filterMap fun
    | .heartbeat id' t => if id' = id then some t else none
    | _ => none

/-- After the operations `ops` the instance runs since `s`, with its last
event at `h`: it was started at `s`, not stopped or discarded since, and no
two consecutive events of it are more than `limit` apart. -/
def Live (limit : Int) (ops : List Operation) (id : UInt64) (s h : Int) : Prop :=
  ∃ before since, ops = before ++ .start id s :: since ∧ Undisturbed id since ∧
    (s :: heartbeats id since).IsChain (fun x y => y - x ≤ limit) ∧
    (s :: heartbeats id since).getLast? = some h

/-- What an operation after `ops` feeds to the statistics: `set` its
measurement, `stop` the time since the start of an instance that runs and
whose last event is not more than the idle timeout ago. -/
inductive Feeds (ck : Clock) (idleTimeout : Duration) (ops : List Operation) : Operation → Int → Prop
  | set {d t} : Feeds ck idleTimeout ops (.set d t) (ck.countIn valueUnit d)
  | stop {id s h t} : Live (ck.count idleTimeout) ops id s h → t - h ≤ ck.count idleTimeout →
      Feeds ck idleTimeout ops (.stop id t) (ck.countIn valueUnit ⟨t - s, ck.unit⟩)

/-- The sequence of what a history feeds. -/
inductive Fed (ck : Clock) (idleTimeout : Duration) : List Operation → List (Int × Int) → Prop
  | nil : Fed ck idleTimeout [] []
  | feeds {ops op value fed} : Fed ck idleTimeout ops fed → Feeds ck idleTimeout ops op value →
      Fed ck idleTimeout (ops ++ [op]) (fed ++ [(value, op.timestamp)])
  | silent {ops op fed} : Fed ck idleTimeout ops fed → (∀ value, ¬ Feeds ck idleTimeout ops op value) →
      Fed ck idleTimeout (ops ++ [op]) fed

section Live

variable {limit : Int} {ops : List Operation} {id : UInt64} {s h : Int}

theorem heartbeats_concat (op : Operation) :
    heartbeats id (ops ++ [op]) = heartbeats id ops ++ heartbeats id [op] :=
  List.filterMap_append

theorem heartbeats_one (id : UInt64) (op : Operation) :
    heartbeats id [op] = [] ∨ ∃ t, heartbeats id [op] = [t] := by
  cases op with
  | heartbeat id' t =>
    by_cases hid : id' = id
    · exact .inr ⟨t, by simp [heartbeats, hid]⟩
    · exact .inl (by simp [heartbeats, hid])
  | _ => exact .inl rfl

/-- Consecutive gaps and the last event, with one more heartbeat or none. -/
theorem chain_concat {hs : List Int} {op : Operation} :
    ((s :: (hs ++ heartbeats id [op])).IsChain (fun x y => y - x ≤ limit) ∧
        (s :: (hs ++ heartbeats id [op])).getLast? = some h) ↔
      ∃ h', ((s :: hs).IsChain (fun x y => y - x ≤ limit) ∧ (s :: hs).getLast? = some h') ∧
        match heartbeats id [op] with
        | [] => h = h'
        | t :: _ => t - h' ≤ limit ∧ h = t := by
  rcases heartbeats_one id op with hb | ⟨t, hb⟩ <;> rw [hb]
  · rw [List.append_nil]
    constructor
    · intro h
      obtain ⟨hc, hl⟩ := h
      exact ⟨h, ⟨hc, hl⟩, rfl⟩
    · intro h
      obtain ⟨h', hh, rfl⟩ := h
      exact hh
  · obtain ⟨l, hl⟩ : ∃ l, (s :: hs).getLast? = some l := ⟨_, List.getLast?_eq_getLast_of_ne_nil (by simp)⟩
    rw [← List.cons_append, List.isChain_append, hl, List.getLast?_concat]
    simp only [Option.some.injEq, List.isChain_singleton, true_and, Option.mem_def, List.head?_cons]
    constructor
    · intro h
      obtain ⟨⟨hc, hgap⟩, rfl⟩ := h
      exact ⟨l, ⟨hc, rfl⟩, hgap l rfl t rfl, rfl⟩
    · intro h
      obtain ⟨h', ⟨hc, rfl⟩, hgap, rfl⟩ := h
      refine ⟨⟨hc, ?_⟩, rfl⟩
      rintro _ rfl _ rfl
      exact hgap

/-- What one more operation makes of the instances that run. -/
theorem live_concat {op : Operation} :
    Live limit (ops ++ [op]) id s h ↔
      (op = .start id s ∧ h = s) ∨
        ((∀ t, op ≠ .start id t) ∧ (∀ t, op ≠ .stop id t) ∧ (∀ t, op ≠ .discard id t) ∧
          ∃ h', Live limit ops id s h' ∧ match heartbeats id [op] with
            | [] => h = h'
            | t :: _ => t - h' ≤ limit ∧ h = t) := by
  constructor
  · intro h
    obtain ⟨before, since, heq, hund, hchain⟩ := h
    rcases List.eq_nil_or_concat since with rfl | ⟨since, op', rfl⟩
    · obtain ⟨-, hop⟩ := List.append_inj' heq rfl
      refine .inl ⟨by simpa using hop, ?_⟩
      simpa [heartbeats, eq_comm] using hchain.2
    · rw [List.concat_eq_append, ← List.cons_append, ← List.append_assoc] at heq
      obtain ⟨rfl, hop⟩ := List.append_inj' heq rfl
      obtain rfl : op = op' := by simpa using hop
      rw [List.concat_eq_append, heartbeats_concat, chain_concat] at hchain
      obtain ⟨h', hchain', hlast⟩ := hchain
      rw [List.concat_eq_append] at hund
      obtain ⟨h₁, h₂, h₃⟩ := hund op (by simp)
      exact .inr ⟨h₁, h₂, h₃, h', ⟨before, since, rfl, fun o ho => hund o (by simp [ho]), hchain'⟩, hlast⟩
  · intro h
    rcases h with ⟨rfl, rfl⟩ | ⟨h₁, h₂, h₃, h', ⟨before, since, rfl, hund, hchain⟩, hlast⟩
    · exact ⟨ops, [], rfl, by simp [Undisturbed], by simp [heartbeats], by simp [heartbeats]⟩
    · refine ⟨before, since ++ [op], by simp, ?_, ?_⟩
      · intro o ho
        rcases List.mem_append.1 ho with ho | ho
        · exact hund o ho
        · rw [List.mem_singleton.1 ho]
          exact ⟨h₁, h₂, h₃⟩
      · rw [heartbeats_concat, chain_concat]
        exact ⟨h', hchain, hlast⟩

/-- The instance an operation is about. -/
def subject? : Operation → Option UInt64
  | .start id _ | .stop id _ | .heartbeat id _ | .discard id _ => some id
  | .set _ _ | .checkIdleTimeout _ _ => none

/-- An operation on another instance, or on none. -/
theorem live_other {op : Operation} (hop : subject? op ≠ some id) :
    Live limit (ops ++ [op]) id s h ↔ Live limit ops id s h := by
  have hne : ∀ id', subject? op = some id' → id' ≠ id := fun id' h₁ h₂ => hop (h₂ ▸ h₁)
  have hhb : heartbeats id [op] = [] := by
    cases op <;> simp_all [heartbeats, subject?]
  rw [live_concat, hhb]
  cases op <;> simp_all [subject?]

theorem live_start {t : Int} : Live limit (ops ++ [.start id t]) id s h ↔ t = s ∧ t = h := by
  rw [live_concat]
  simp only [Operation.start.injEq, true_and, ne_eq, forall_eq', false_and, or_false]
  constructor
  · rintro ⟨rfl, rfl⟩; exact ⟨rfl, rfl⟩
  · rintro ⟨rfl, rfl⟩; exact ⟨rfl, rfl⟩

theorem live_end {op : Operation} {t : Int} (hop : op = .stop id t ∨ op = .discard id t) :
    ¬ Live limit (ops ++ [op]) id s h := by
  rw [live_concat]
  intro h
  rcases h with ⟨rfl, -⟩ | ⟨-, h₂, h₃, -⟩
  · simp at hop
  · rcases hop with hop | hop
    · exact h₂ t hop
    · exact h₃ t hop

theorem live_heartbeat {t : Int} :
    Live limit (ops ++ [.heartbeat id t]) id s h ↔
      ∃ h', Live limit ops id s h' ∧ t - h' ≤ limit ∧ h = t := by
  rw [live_concat]
  simp [heartbeats]

end Live

/-- The statistics as the sequence of what they are fed. -/
def record (fed : List (Int × Int)) (value timestamp : Int) : Except Fault (List (Int × Int)) :=
  .ok (fed ++ [(value, timestamp)])

/-- What the reference holds, of the history: the instances that run, and
what they have been fed. -/
structure RefInv (ck : Clock) (idleTimeout : Duration) (ops : List Operation)
    (ref : Timer (List (Int × Int))) : Prop where
  idleTimeout_eq : ref.idleTimeout = idleTimeout
  instances : ∀ id s h, ref.instances id = some ⟨s, h⟩ ↔ Live (ck.count idleTimeout) ops id s h
  values : Fed ck idleTimeout ops ref.values

theorem expired_iff {idleTimeout : Duration} (hidle : 0 ≤ ck.count idleTimeout) {i : InstanceState}
    {t : Int} :
    i.expired ck idleTimeout t = true ↔ ¬ t - i.heartbeatTimestamp ≤ ck.count idleTimeout := by
  simp only [InstanceState.expired, Bool.and_eq_true, decide_eq_true_eq]
  omega

namespace RefInv

variable {idleTimeout : Duration} {ops : List Operation} {ref : Timer (List (Int × Int))}

/-- One instance is written, the others stay. -/
theorem instances_update (hI : RefInv ck idleTimeout ops ref) {op : Operation} {id : UInt64}
    {i : Option InstanceState} (hop : subject? op = some id)
    (hi : ∀ s h, i = some ⟨s, h⟩ ↔ Live (ck.count idleTimeout) (ops ++ [op]) id s h)
    (id' : UInt64) (s h : Int) :
    Function.update ref.instances id i id' = some ⟨s, h⟩ ↔
      Live (ck.count idleTimeout) (ops ++ [op]) id' s h := by
  by_cases hid : id' = id
  · subst hid
    rw [Function.update_self, hi]
  · rw [Function.update_of_ne hid, hI.instances, live_other]
    rw [hop]
    simpa using Ne.symm hid

theorem instances_other (hI : RefInv ck idleTimeout ops ref) {op : Operation} (hop : subject? op = none)
    (id : UInt64) (s h : Int) :
    ref.instances id = some ⟨s, h⟩ ↔ Live (ck.count idleTimeout) (ops ++ [op]) id s h := by
  rw [hI.instances, live_other]
  simp [hop]

/-- An instance that does not run stays as it is. -/
theorem instances_absent (hI : RefInv ck idleTimeout ops ref) {op : Operation} {id : UInt64}
    (hop : subject? op = some id) (hi : ref.instances id = none)
    (hnone : ∀ s h, ¬ Live (ck.count idleTimeout) (ops ++ [op]) id s h) (id' : UInt64) (s h : Int) :
    ref.instances id' = some ⟨s, h⟩ ↔ Live (ck.count idleTimeout) (ops ++ [op]) id' s h := by
  rw [← Function.update_eq_self (f := ref.instances) id, hi]
  exact hI.instances_update hop (fun s h => by simp [hnone]) id' s h

/-- A heartbeat drops an expired instance and keeps another one running. -/
theorem heartbeat (hidle : 0 ≤ ck.count idleTimeout) (hI : RefInv ck idleTimeout ops ref) (id : UInt64)
    (t : Int) :
    ∃ ref', referenceStep ck record ref (.heartbeat id t) = .ok ref' ∧
      RefInv ck idleTimeout (ops ++ [.heartbeat id t]) ref' := by
  have hfed : Fed ck idleTimeout (ops ++ [.heartbeat id t]) ref.values :=
    hI.values.silent fun v hv => by cases hv
  have hT := hI.idleTimeout_eq
  cases hi : ref.instances id with
  | none =>
    refine ⟨ref, by simp [referenceStep, heartbeaten, hi], hT, hI.instances_absent rfl hi fun s h => ?_, hfed⟩
    simp [live_heartbeat, ← hI.instances, hi]
  | some i =>
    by_cases hexp : i.expired ck idleTimeout t = true
    · refine ⟨ref.erase id, by simp [referenceStep, heartbeaten, hi, hT, hexp], hT,
        hI.instances_update rfl fun s h => ?_, hfed⟩
      rw [expired_iff hidle] at hexp
      simp only [live_heartbeat, ← hI.instances, hi, reduceCtorEq, false_iff, not_exists, not_and]
      intro h' hh hgap
      obtain rfl : i = ⟨s, h'⟩ := Option.some.inj hh
      exact absurd hgap hexp
    · refine ⟨{ ref with
          instances := Function.update ref.instances id (some { i with heartbeatTimestamp := t }) },
        by simp [referenceStep, heartbeaten, hi, hT, hexp], hT, hI.instances_update rfl fun s h => ?_, hfed⟩
      rw [expired_iff hidle, not_not] at hexp
      simp only [live_heartbeat, ← hI.instances, hi, Option.some.injEq, InstanceState.mk.injEq]
      constructor
      · intro h
        obtain ⟨rfl, rfl⟩ := h
        exact ⟨i.heartbeatTimestamp, rfl, hexp, rfl⟩
      · intro h
        obtain ⟨h', rfl, -, rfl⟩ := h
        exact ⟨rfl, rfl⟩

/-- A `stop` feeds the time of an instance that runs and has not expired. -/
theorem stop (hidle : 0 ≤ ck.count idleTimeout) (hI : RefInv ck idleTimeout ops ref) (id : UInt64) (t : Int) :
    ∃ ref', referenceStep ck record ref (.stop id t) = .ok ref' ∧
      RefInv ck idleTimeout (ops ++ [.stop id t]) ref' := by
  have hT := hI.idleTimeout_eq
  have hgone : ∀ s h, (none : Option InstanceState) = some ⟨s, h⟩ ↔
      Live (ck.count idleTimeout) (ops ++ [.stop id t]) id s h := by
    intro s h
    simp [live_end (.inl rfl)]
  cases hi : ref.instances id with
  | none =>
    refine ⟨ref, by simp [referenceStep, stopped, hi], hT,
      hI.instances_absent rfl hi fun s h => live_end (.inl rfl), hI.values.silent ?_⟩
    rintro v (_ | ⟨hlive, -⟩)
    rw [← hI.instances, hi] at hlive
    cases hlive
  | some i =>
    by_cases hexp : i.expired ck idleTimeout t = true
    · refine ⟨ref.erase id, by simp [referenceStep, stopped, hi, hT, hexp], hT, hI.instances_update rfl hgone,
        hI.values.silent ?_⟩
      rw [expired_iff hidle] at hexp
      rintro v (_ | ⟨hlive, hgap⟩)
      rw [← hI.instances, hi] at hlive
      obtain rfl := Option.some.inj hlive
      exact hexp hgap
    · refine ⟨{ ref with values := ref.values ++ [(instanceValue ck i t, t)] }.erase id,
        by simp [referenceStep, stopped, hi, hT, hexp, record, bind, Except.bind], hT,
        hI.instances_update rfl hgone,
        .feeds hI.values (.stop ((hI.instances id i.startTimestamp i.heartbeatTimestamp).1 hi) ?_)⟩
      rwa [expired_iff hidle, not_not] at hexp

end RefInv

theorem referenceStep_inv {idleTimeout : Duration} (hidle : 0 ≤ ck.count idleTimeout)
    {ops : List Operation} {ref : Timer (List (Int × Int))} (hI : RefInv ck idleTimeout ops ref)
    (op : Operation) :
    ∃ ref', referenceStep ck record ref op = .ok ref' ∧ RefInv ck idleTimeout (ops ++ [op]) ref' := by
  have hT := hI.idleTimeout_eq
  cases op with
  | start id t =>
    refine ⟨_, rfl, hT, hI.instances_update rfl fun s h => ?_, hI.values.silent fun v hv => by cases hv⟩
    rw [live_start, Option.some.injEq, InstanceState.mk.injEq]
  | discard id t =>
    refine ⟨_, rfl, hT, hI.instances_update rfl fun s h => ?_, hI.values.silent fun v hv => by cases hv⟩
    simp [live_end (.inr rfl)]
  | set d t => exact ⟨_, rfl, hT, hI.instances_other rfl, .feeds hI.values .set⟩
  | checkIdleTimeout t force =>
    exact ⟨_, rfl, hT, hI.instances_other rfl, hI.values.silent fun v hv => by cases hv⟩
  | heartbeat id t => exact hI.heartbeat hidle id t
  | stop id t => exact hI.stop hidle id t

/-- **The lazy idle sweep is unobservable.** The timer and the reference feed
the same sequence of values to the statistics, and it is the one the history
of the calls gives: each `set` its measurement, each `stop` the time since
the last start of its instance, if the instance was not stopped or discarded
since and no two consecutive events of it are more than the idle timeout
apart; and nothing else. -/
theorem timer_sweep_unobservable {idleTimeout : Duration} (hidle : 0 ≤ ck.count idleTimeout)
    {ops : List Operation} (hops : InOrder ops) :
    ∃ tm ref, run (step ck record) (fresh idleTimeout []) ops = .ok tm ∧
      run (referenceStep ck record) (fresh idleTimeout []) ops = .ok ref ∧
      tm.values = ref.values ∧ Fed ck idleTimeout ops tm.values := by
  have hstart : RefInv ck idleTimeout [] (fresh idleTimeout []) := by
    refine ⟨rfl, fun id s h => ?_, .nil⟩
    simp [fresh, Live]
  obtain ⟨ref, href, -⟩ := run_total (I := fun ref => ∃ ops, RefInv ck idleTimeout ops ref)
    (fun ref op ⟨ops, hI⟩ =>
      let ⟨ref', h, hI'⟩ := referenceStep_inv hidle hI op
      ⟨ref', h, _, hI'⟩) ops ⟨[], hstart⟩
  have hI : RefInv ck idleTimeout ops ref := by
    refine run_inv (fun pre ref op ref' hI h => ?_) hstart href
    obtain ⟨ref'', h', hI'⟩ := referenceStep_inv hidle hI op
    obtain rfl := Except.ok.inj (h.symm.trans h')
    exact hI'
  have hlock : Lockstep (fun tm ref => tm.values = ref.values)
      (run (step ck record) (fresh idleTimeout []) ops)
      (run (referenceStep ck record) (fresh idleTimeout []) ops) := run_swept hops idleTimeout []
  rcases hlock with ⟨e, -, herr⟩ | ⟨tm, ref', htm, href', hvalues⟩
  · rw [href] at herr
    cases herr
  · obtain rfl := Except.ok.inj (href.symm.trans href')
    exact ⟨tm, ref, htm, href, hvalues, hvalues ▸ hI.values⟩

theorem timer_sweep_unobservable_sample :
    ∃ tm : Timer (List (Int × Int)),
      run (step ⟨.nsec, 1⟩ record) (fresh ⟨100, .nsec⟩ [])
        [.start 1 0, .start 2 50, .heartbeat 2 150, .stop 1 200, .stop 2 210, .set ⟨7, .usec⟩ 220] =
          .ok tm ∧
      Fed ⟨.nsec, 1⟩ ⟨100, .nsec⟩
        [.start 1 0, .start 2 50, .heartbeat 2 150, .stop 1 200, .stop 2 210, .set ⟨7, .usec⟩ 220]
        tm.values := by
  let ops : List Operation :=
    [.start 1 0, .start 2 50, .heartbeat 2 150, .stop 1 200, .stop 2 210, .set ⟨7, .usec⟩ 220]
  have hidle : 0 ≤ (⟨.nsec, 1⟩ : Clock).count ⟨100, .nsec⟩ := by decide
  have hops : InOrder ops := by simp [ops, InOrder, Operation.timestamp]
  obtain ⟨tm, -, h, -, -, hfed⟩ := timer_sweep_unobservable hidle hops
  exact ⟨tm, h, hfed⟩

end Handystats.Timer
