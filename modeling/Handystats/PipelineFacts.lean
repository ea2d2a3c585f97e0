/-
What holds of the whole library in every run, orderly or not.

A run of the whole is a run of the core (`run_core`). The values of attributes
are owned (`Kept`): each that is in use is that of one message which is created
and not done with, and so none is freed when it is not there. What the
processing thread has made of the metrics, it has made of the messages that it
was given, in that order (`Told`).
-/
import Handystats.Library.Ownership
import Handystats.MessageOrder
import Handystats.MetricHistory
import Handystats.Pipeline
import Handystats.ProcessorFacts

namespace Handystats

open Runs

namespace Core

open MessageQueue

variable {P M : Type} [DecidableEq P] [DecidableEq M] {s s' : State P M} {made : P → List M}

/-! ## What the core's step is done with -/

omit [DecidableEq P] [DecidableEq M] in
/-- What the consumer comes out of `pop` with is one message, or none. -/
theorem obtained_cases (s : State P M) :
    s.obtained = [] ∨
      ∃ m, s.obtained = [m] ∧ s.sized.consumer = .readSize ∧ s.sized.queue.returned.getLast? = some (.msg m) := by
  unfold State.obtained
  split
  next m hc hlast => exact .inr ⟨m, rfl, hc, hlast⟩
  next => exact .inl rfl

/-- It was created, and is not done with. -/
theorem Flow.obtained_fresh (h : Flow made s) {m : M} (hm : m ∈ s.obtained) :
    m ∈ s.created ∧ m ∉ s.processed ++ s.deleted := by
  have hhand : Node.msg m ∈ inHand s.sized := by
    rcases obtained_cases s with hnone | ⟨m', hone, hc, hlast⟩
    · rw [hnone] at hm
      cases hm
    · rw [hone, List.mem_singleton] at hm
      subst hm
      simp [inHand, hc, hlast]
  refine ⟨?_, fun hdone => ?_⟩
  · have hline := h.settled_mem (List.mem_append_right _ hhand)
    obtain ⟨p, hp⟩ := h.ordered.store_made m (by simpa using hline)
    exact h.created p m hp
  · exact (List.nodup_append'.1 h.settled_nodup).2.2 (List.mem_map_of_mem hdone) hhand

end Core

namespace Pipeline

variable {P M K : Type} [DecidableEq P] [DecidableEq M] {traffic : Traffic M} {s s' : State P M K}
variable {a : Action P M} {as : List (Action P M)}

/-- The messages that a measuring point creates. -/
abbrev createdBy (as : List (Action P M)) (p : P) : List M := Core.createdBy (as.map Action.action) p

/-! ## What is done with -/

omit [DecidableEq P] [DecidableEq M] in
theorem obtained_of_idle {core : Core.State P M} (h : core.sized.consumer = .idle) : core.obtained = [] := by
  simp [Core.State.obtained, h]

theorem core_create {core core' : Core.State P M} {p : P} {m : M} (h : Core.step core (.create p m) = .ok core') :
    m ∉ core.created ∧ core'.created = core.created ++ [m] ∧ core'.processed = core.processed ∧
      core'.deleted = core.deleted := by
  simp only [Core.step] at h
  split at h
  next =>
    split_ifs at h with hm
    obtain rfl := Except.ok.inj h
    exact ⟨hm, rfl, rfl, rfl⟩
  next => cases h

theorem core_done {core core' : Core.State P M} {action : Core.Action P M} (h : Core.step core action = .ok core')
    (hcreate : ∀ p m, action ≠ .create p m) :
    core'.created = core.created ∧
      (action = .processor ∧ core'.processed = core.processed ++ finished core action ∧
          core'.deleted = core.deleted ∨
        action ≠ .processor ∧ core'.processed = core.processed ∧
          core'.deleted = core.deleted ++ finished core action) := by
  cases action with
  | create p m => exact absurd rfl (hcreate p m)
  | processor =>
    simp only [Core.step, Core.processorStep] at h
    cases hp : core.processor with
    | stopped =>
      rw [hp] at h
      cases h
    | testEnabled =>
      rw [hp] at h
      obtain rfl := Except.ok.inj h
      exact ⟨rfl, .inl ⟨rfl, by simp [finished, hp], rfl⟩⟩
    | consuming =>
      rw [hp] at h
      obtain rfl := Except.ok.inj h
      exact ⟨rfl, .inl ⟨rfl, by simp [finished, hp], rfl⟩⟩
  | core =>
    simp only [Core.step, Core.coreStep] at h
    cases hc : core.core with
    | idle =>
      rw [hc] at h
      cases h
    | join =>
      simp only [hc] at h
      split_ifs at h
      obtain rfl := Except.ok.inj h
      exact ⟨rfl, .inr ⟨by simp, rfl, by simp [finished, hc]⟩⟩
    | drain =>
      simp only [hc] at h
      split_ifs at h with hdrained
      · obtain rfl := Except.ok.inj h
        exact ⟨rfl, .inr ⟨by simp, rfl, by simp [finished, hc, obtained_of_idle hdrained.1]⟩⟩
      · obtain rfl := Except.ok.inj h
        exact ⟨rfl, .inr ⟨by simp, rfl, by simp [finished, hc]⟩⟩
    | _ =>
      simp only [hc, Except.ok.injEq] at h
      subst h
      exact ⟨rfl, .inr ⟨by simp, rfl, by simp [finished, hc, Core.State.newQueue]⟩⟩
  | callInitialize | callFinalize =>
    simp only [Core.step] at h
    split_ifs at h
    obtain rfl := Except.ok.inj h
    exact ⟨rfl, .inr ⟨by simp, rfl, by simp [finished]⟩⟩
  | start p =>
    simp only [Core.step] at h
    split at h
    next =>
      split_ifs at h
      obtain ⟨sized, -, h⟩ := bind_eq_ok.1 h
      obtain rfl := Except.ok.inj h
      exact ⟨rfl, .inr ⟨by simp, rfl, by simp [finished]⟩⟩
    next => cases h
  | exchange p | link p =>
    simp only [Core.step] at h
    split at h
    next =>
      split_ifs at h
      obtain ⟨sized, -, h⟩ := bind_eq_ok.1 h
      obtain rfl := Except.ok.inj h
      exact ⟨rfl, .inr ⟨by simp, rfl, by simp [finished]⟩⟩
    next => cases h
  | increment p =>
    simp only [Core.step] at h
    split at h
    next =>
      obtain ⟨sized, -, h⟩ := bind_eq_ok.1 h
      obtain rfl := Except.ok.inj h
      exact ⟨rfl, .inr ⟨by simp, rfl, by simp [finished]⟩⟩
    next => cases h
  | testEnabled p | testQueue p =>
    simp only [Core.step] at h
    split at h
    next =>
      obtain rfl := Except.ok.inj h
      exact ⟨rfl, .inr ⟨by simp, rfl, by simp [finished]⟩⟩
    next => cases h

omit [DecidableEq P] [DecidableEq M] in
/-- It is one message that the consumer has obtained, or none. -/
theorem finished_cases (core : Core.State P M) (action : Core.Action P M) :
    finished core action = [] ∨ ∃ m, finished core action = [m] ∧ core.obtained = [m] := by
  have hone : ∀ (c : Prop) [Decidable c], (if c then core.obtained else []) = [] ∨
      ∃ m, (if c then core.obtained else []) = [m] ∧ core.obtained = [m] := by
    intro c _
    split_ifs
    · rcases Core.obtained_cases core with hnone | ⟨m, hm, -⟩
      · exact .inl hnone
      · exact .inr ⟨m, hm, hm⟩
    · exact .inl rfl
  cases action with
  | processor => exact hone _
  | core => exact hone _
  | _ => exact .inl rfl

/-! ## Values -/

/-- A message that is created and not done with, and has a value. -/
def Live (traffic : Traffic M) (core : Core.State P M) (m : M) : Prop :=
  m ∈ core.created ∧ m ∉ core.processed ++ core.deleted ∧ (traffic.message m).ownsValue = true

/-- Each value in use is that of a live message. -/
def Kept (traffic : Traffic M) (s : State P M K) : Prop :=
  Ownership.Held (fun m => (traffic.message m).eventData) traffic.value (Live traffic s.core) s.heap

theorem Kept.create (h : Kept traffic s) {p : P} {m : M} {core : Core.State P M} {heap : AttributeHeap}
    {thread : Option (Thread M K)} (hflow : Core.Flow (createdBy as) s.core)
    (hcore : Core.step s.core (.create p m) = .ok core) (hheap : allocate traffic s.heap m = .ok heap) :
    Kept traffic ⟨core, heap, thread⟩ := by
  obtain ⟨hfresh, hcreated, hprocessed, hdeleted⟩ := core_create hcore
  have hdone : m ∉ s.core.processed ++ s.core.deleted := by
    intro hdone
    have hline := hflow.settled_mem (List.mem_append_left _ (List.mem_map_of_mem hdone))
    obtain ⟨q, hq⟩ := hflow.ordered.store_made m (by simpa using hline)
    exact hfresh (hflow.created q m hq)
  have hlive : ∀ j, Live traffic core j ↔
      Live traffic s.core j ∨ (j = m ∧ (traffic.message m).ownsValue = true) := by
    intro j
    unfold Live
    rw [hcreated, hprocessed, hdeleted, List.mem_append, List.mem_singleton]
    constructor
    · intro hj
      obtain ⟨hj | rfl, hnot, howns⟩ := hj
      · exact .inl ⟨hj, hnot, howns⟩
      · exact .inr ⟨rfl, howns⟩
    · intro hj
      rcases hj with ⟨hj, hnot, howns⟩ | ⟨rfl, howns⟩
      · exact ⟨.inl hj, hnot, howns⟩
      · exact ⟨.inr rfl, hdone, howns⟩
  unfold allocate at hheap
  split_ifs at hheap with howns hfree
  · obtain rfl := Except.ok.inj hheap
    refine (Ownership.Held.allocate h (by simpa using hfree)).congr fun j => ?_
    rw [hlive j]
    simp [howns]
  · obtain rfl := Except.ok.inj hheap
    refine Ownership.Held.congr h fun j => ?_
    rw [hlive j]
    simp [howns]

omit [DecidableEq P] [DecidableEq M] in
/-- A message that is created and not done with can be deleted. -/
theorem Kept.delete (h : Kept traffic s) {m : M} (hm : m ∈ s.core.created)
    (hdone : m ∉ s.core.processed ++ s.core.deleted) :
    ∃ heap, deleteEventMessage s.heap (traffic.message m) = .ok heap ∧
      Ownership.Held (fun m => (traffic.message m).eventData) traffic.value
        (fun j => Live traffic s.core j ∧ j ≠ m) heap := by
  cases howns : (traffic.message m).ownsValue with
  | true =>
    have hlive : Live traffic s.core m := ⟨hm, hdone, howns⟩
    refine ⟨_, ?_, h.free hlive⟩
    simp only [deleteEventMessage, howns, if_true, h.holds m hlive]
  | false =>
    refine ⟨s.heap, by simp [deleteEventMessage, howns], Ownership.Held.congr h fun j => ⟨fun hj => ⟨hj, ?_⟩, And.left⟩⟩
    intro heq
    rw [heq, Live, howns] at hj
    exact absurd hj.2.2 (by simp)

/-- What a step that creates no message does to the values. -/
theorem Kept.done (h : Kept traffic s) (hflow : Core.Flow (createdBy as) s.core) (action : Core.Action P M) :
    ∃ heap, (finished s.core action).foldlM (fun heap m => deleteEventMessage heap (traffic.message m)) s.heap =
        .ok heap ∧
      Ownership.Held (fun m => (traffic.message m).eventData) traffic.value
        (fun j => Live traffic s.core j ∧ j ∉ finished s.core action) heap := by
  rcases finished_cases s.core action with hnone | ⟨m, hone, hobtained⟩
  · rw [hnone]
    exact ⟨s.heap, rfl, Ownership.Held.congr h fun j => by simp⟩
  · obtain ⟨hm, hdone⟩ := hflow.obtained_fresh (m := m) (by simp [hobtained])
    obtain ⟨heap, hheap, hheld⟩ := h.delete hm hdone
    rw [hone]
    refine ⟨heap, by simp [hheap], hheld.congr fun j => by simp⟩

/-! ## Runs -/

variable [Field K] [LinearOrder K] {env : Environment K}

theorem orFault_ok {α : Type} {r : Except Fault α} {x : α} : orFault r = .ok x ↔ r = .ok x := by
  cases r <;> simp [orFault]

/-- A step is one of the core, of the thread's data and of the values. -/
theorem step_ok : step env traffic s a = .ok s' ↔
    Core.step s.core a.action = .ok s'.core ∧ threadStep env traffic s a = .ok s'.thread ∧
      heapStep traffic s a.action = .ok s'.heap := by
  constructor
  · intro h
    obtain ⟨core, hcore, h⟩ := bind_eq_ok.1 h
    obtain ⟨thread, hthread, h⟩ := bind_eq_ok.1 h
    obtain ⟨heap, hheap, h⟩ := bind_eq_ok.1 h
    obtain rfl := Except.ok.inj h
    refine ⟨?_, orFault_ok.1 hthread, hheap⟩
    cases hs : Core.step s.core a.action with
    | ok core' =>
      rw [hs] at hcore
      exact congrArg Except.ok (Except.ok.inj hcore)
    | error e =>
      rw [hs] at hcore
      cases hcore
  · intro h
    obtain ⟨hcore, hthread, hheap⟩ := h
    refine bind_eq_ok.2 ⟨s'.core, by rw [hcore]; rfl, bind_eq_ok.2 ⟨s'.thread, orFault_ok.2 hthread, ?_⟩⟩
    exact bind_eq_ok.2 ⟨s'.heap, hheap, rfl⟩

/-- **The core's runs** are what is left of the runs of the whole. -/
theorem run_core (h : run (step env traffic) s as = .ok s') :
    run Core.step s.core (as.map Action.action) = .ok s'.core := by
  induction as generalizing s with
  | nil =>
    obtain rfl := Except.ok.inj h
    rfl
  | cons a as ih =>
    obtain ⟨m, ha, hrest⟩ := run_cons_ok.1 h
    exact run_cons_ok.2 ⟨m.core, (step_ok.1 ha).1, ih hrest⟩

theorem run_flow (h : run (step env traffic) State.new as = .ok s) : Core.Flow (createdBy as) s.core :=
  Core.run_flow (run_core h)

theorem Kept.step (h : Kept traffic s) (hflow : Core.Flow (createdBy as) s.core)
    (hs : step env traffic s a = .ok s') : Kept traffic s' := by
  obtain ⟨hcore, -, hheap⟩ := step_ok.1 hs
  by_cases hcreate : ∃ p m, a.action = .create p m
  · obtain ⟨p, m, haction⟩ := hcreate
    rw [haction] at hcore hheap
    have hkept : Kept traffic ⟨s'.core, s'.heap, s'.thread⟩ := h.create hflow hcore hheap
    exact hkept
  · have hcreate : ∀ p m, a.action ≠ .create p m := fun p m heq => hcreate ⟨p, m, heq⟩
    obtain ⟨heap, hdeleted, hheld⟩ := h.done hflow a.action
    have hsame : s'.heap = heap := by
      unfold heapStep at hheap
      split at hheap
      next p m heq => exact absurd heq (hcreate p m)
      next => exact Except.ok.inj (hheap.symm.trans (orFault_ok.2 hdeleted))
    rw [← hsame] at hheld
    refine hheld.congr fun j => ?_
    obtain ⟨hcreated, hdone⟩ := core_done hcore hcreate
    unfold Live
    rw [hcreated]
    rcases hdone with ⟨-, hp, hd⟩ | ⟨-, hp, hd⟩
    all_goals
      rw [hp, hd]
      simp only [List.mem_append]
      tauto

theorem run_kept (h : run (step env traffic) State.new as = .ok s) : Kept traffic s := by
  refine (run_inv (I := fun as s => Core.Flow (createdBy as) s.core ∧ Kept traffic s) ?_ ⟨Core.flow_new, ?_⟩ h).2
  · intro as s a s' hI hs
    obtain ⟨hflow, hkept⟩ := hI
    refine ⟨?_, hkept.step hflow hs⟩
    change Core.Flow (Core.createdBy ((as ++ [a]).map Action.action)) s'.core
    rw [List.map_append]
    exact Core.flow_step hflow (step_ok.1 hs).1
  · exact Ownership.held_nothing.congr fun m => ⟨False.elim, fun hm => by cases hm.1⟩

/-- **Values are owned.** In every run: the values that are in use are those of
the messages that are created and not done with, each at its own address; what
the consumer comes out of `pop` with finds its value there; and no step frees
one that is not there. -/
theorem values_owned (h : run (step env traffic) State.new as = .ok s) :
    (∀ a v, s.heap a = some v ↔
      ∃ m, Live traffic s.core m ∧ (traffic.message m).eventData = a ∧ traffic.value m = v) ∧
    (∀ m ∈ s.core.obtained, (traffic.message m).ownsValue = true →
      s.heap (traffic.message m).eventData = some (traffic.value m)) ∧
    ∀ action fault, heapStep traffic s action ≠ .error (.fault fault) := by
  have hkept := run_kept h
  have hflow := run_flow h
  refine ⟨fun a v => hkept.heap_eq_some, fun m hm howns => ?_, fun action fault => ?_⟩
  · obtain ⟨hcreated, hdone⟩ := hflow.obtained_fresh hm
    exact hkept.holds m ⟨hcreated, hdone, howns⟩
  · unfold heapStep
    split
    next p m =>
      unfold allocate
      split_ifs <;> simp
    next =>
      obtain ⟨heap, hheap, -⟩ := hkept.done hflow action
      rw [hheap]
      simp [orFault]

theorem run_good (h : run (step env traffic) State.new as = .ok s)
    (horderly : Throughout (step env traffic) State.new as fun _ s a => Core.Orderly s.core a.action) :
    Core.Good s.core :=
  run_inv_throughout (I := fun _ s => Core.Good s.core) (P := fun _ s a => Core.Orderly s.core a.action)
    (fun _ _ _ _ hgood ho hs => Core.good_step hgood ho (step_ok.1 hs).1) Core.good_new h horderly

/-- Message 1 sets an attribute, the others count. -/
def sampleTraffic : Traffic Nat where
  message := fun m =>
    if m = 1 then AttributeEvents.createSetEvent "version" 64 100
    else CounterEvents.createIncrementEvent "requests" 1 (100 + m)
  value := fun _ => .bool true

/-- The steps of the core, all at one time. -/
def sampleActions (actions : List (Core.Action Bool Nat)) : List (Action Bool Nat) :=
  actions.map fun action => ⟨action, ⟨.default, 1, 1, 110, 110, 110, 110, 110, ⟨110, 110, 110⟩⟩⟩

theorem values_owned_sample :
    ∃ (s : State Bool Nat ℚ) (v : AttributeValue), run (step Internal.sampleEnvironment sampleTraffic) State.new
        (sampleActions (Core.twoMessages.take 13)) = .ok s ∧ s.heap 64 = some v ∧
      ∃ m, Live sampleTraffic s.core m ∧ (sampleTraffic.message m).eventData = 64 ∧ sampleTraffic.value m = v := by
  obtain ⟨s, hs, hheap⟩ : ∃ s : State Bool Nat ℚ, run (step Internal.sampleEnvironment sampleTraffic) State.new
      (sampleActions (Core.twoMessages.take 13)) = .ok s ∧ (s.heap 64).isSome = true := by
    decide +kernel
  obtain ⟨v, hv⟩ := Option.isSome_iff_exists.1 hheap
  exact ⟨s, v, hs, hv, ((values_owned hs).1 64 v).1 hv⟩

/-- **No value is left over**: when, after a run whose steps were all orderly,
`finalize` and every call have returned, there is none in use. -/
theorem shutdown_frees (h : run (step env traffic) State.new as = .ok s)
    (horderly : Throughout (step env traffic) State.new as fun _ s a => Core.Orderly s.core a.action)
    (hcalls : ∀ p, s.core.calls p = .idle) (hidle : s.core.core = .idle) (henabled : s.core.enabled = false) :
    ∀ a, s.heap a = none := by
  obtain ⟨hdone, -⟩ := (run_good h horderly).done hcalls hidle henabled
  refine (run_kept h).empty fun m hlive => ?_
  exact hlive.2.1 (hdone.mem_iff.2 hlive.1)

theorem shutdown_frees_sample :
    ∃ s : State Bool Nat ℚ, run (step Internal.sampleEnvironment sampleTraffic) State.new
        (sampleActions Core.twoMessages) = .ok s ∧ s.core.created = [1, 2] ∧ ∀ a, s.heap a = none := by
  obtain ⟨s, hs, hcreated, hcalls, hidle, henabled⟩ : ∃ s : State Bool Nat ℚ,
      run (step Internal.sampleEnvironment sampleTraffic) State.new (sampleActions Core.twoMessages) = .ok s ∧
        s.core.created = [1, 2] ∧ (∀ p, s.core.calls p = .idle) ∧ s.core.core = .idle ∧
        s.core.enabled = false := by
    decide +kernel
  have horderly : Throughout (step Internal.sampleEnvironment sampleTraffic) (State.new : State Bool Nat ℚ)
      (sampleActions Core.twoMessages) fun _ s a => Core.Orderly s.core a.action :=
    throughout_of_meets (by decide +kernel)
  exact ⟨s, hs, hcreated, shutdown_frees hs horderly hcalls hidle henabled⟩

end Pipeline

end Handystats
