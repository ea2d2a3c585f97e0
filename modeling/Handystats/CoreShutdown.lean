/-
Shutdown: in an orderly run no message is lost, the size counter ends at 0 and
every drain loop ends; a run that is not orderly may lose one, and never end.
-/
import Mathlib.Data.List.Perm.Basic
import Handystats.CoreSteps

namespace Handystats.Core

open MessageQueue Runs Handover

variable {P M : Type} [DecidableEq P] [DecidableEq M] {s s' : State P M}

theorem good_run {as : List (Action P M)} (hrun : run step State.new as = .ok s)
    (horderly : Throughout step State.new as fun _ s a => Orderly s a) : Good s :=
  run_inv_throughout (I := fun _ s => Good s) (P := fun _ s a => Orderly s a)
    (fun _ _ _ _ h ho hs => good_step h ho hs) good_new hrun horderly

theorem sizedBy_defined {sized : SizedState P M} {a : SizedAction P M} :
    sizedBy sized a ≠ .error .undefinedBehaviour := by
  unfold sizedBy
  cases sizedStep sized a with
  | ok t => simp
  | error e => simp

omit [DecidableEq P] in
theorem coreStep_defined : coreStep s ≠ .error .undefinedBehaviour := by
  intro hs
  cases hc : s.core with
  | join =>
    simp only [coreStep, hc] at hs
    split_ifs at hs
    cases hs
  | drain =>
    simp only [coreStep, hc] at hs
    split_ifs at hs
  | _ =>
    simp only [coreStep, hc] at hs
    cases hs

/-- No orderly step is undefined behaviour. -/
theorem Good.defined (h : Good s) {a : Action P M} (ho : Orderly s a) :
    step s a ≠ .error .undefinedBehaviour := by
  intro hs
  have hpush : ∀ {p m k}, s.calls p = .pushing m k → s.pointer = .live ∧ k = s.incarnation := by
    intro p m k hcall
    have htied := h.tied p
    rw [hcall] at htied
    exact ⟨(h.live (by rw [hcall]; rfl)).1, htied.1⟩
  cases a with
  | testEnabled p =>
    simp only [step] at hs
    split at hs <;> cases hs
  | create p m =>
    simp only [step] at hs
    split at hs
    · split_ifs at hs
      cases hs
    · cases hs
  | testQueue p =>
    simp only [step] at hs
    split at hs <;> cases hs
  | start p =>
    simp only [step] at hs
    split at hs
    · rw [if_pos ho.1] at hs
      rcases bind_eq_error.1 hs with hs | ⟨_, _, ⟨⟩⟩
      exact sizedBy_defined hs
    · cases hs
  | exchange p =>
    simp only [step] at hs
    split at hs
    next hcall =>
      rw [if_pos (hpush hcall)] at hs
      rcases bind_eq_error.1 hs with hs | ⟨_, _, ⟨⟩⟩
      exact sizedBy_defined hs
    next => cases hs
  | link p =>
    simp only [step] at hs
    split at hs
    next hcall =>
      rw [if_pos (hpush hcall)] at hs
      rcases bind_eq_error.1 hs with hs | ⟨_, _, ⟨⟩⟩
      exact sizedBy_defined hs
    next => cases hs
  | increment p =>
    simp only [step] at hs
    split at hs
    · rcases bind_eq_error.1 hs with hs | ⟨_, _, ⟨⟩⟩
      exact sizedBy_defined hs
    · cases hs
  | processor =>
    simp only [step, Core.processorStep] at hs
    split at hs <;> cases hs
  | callInitialize =>
    simp only [step] at hs
    split_ifs at hs
    cases hs
  | callFinalize =>
    simp only [step] at hs
    split_ifs at hs
    cases hs
  | core => exact coreStep_defined hs

/-! ## Messages -/

theorem Quiet.returned_eq {calls : P → CallState M} {sized : SizedState P M} (h : Quiet calls sized)
    (hr : SizedReachable sized) : sized.queue.returned = sized.queue.exchanged.map .msg := by
  refine (queue_refines_fifo hr.queue).2.1.eq_of_length ?_
  rw [h.returned, List.length_map]

omit [DecidableEq M] in
theorem msg_injective : Function.Injective (Node.msg : M → Node M) := fun _ _ h => Node.msg.inj h

/-- Nothing is done with twice. -/
theorem Good.nodup (h : Good s) : (s.processed ++ s.deleted).Nodup := by
  have hprefix := (queue_refines_fifo h.reach.queue).2.1
  have hall : (s.earlier.map Node.msg ++ s.sized.queue.returned).Nodup := by
    refine List.Nodup.sublist ?_ (h.placed.store_nodup.map msg_injective)
    rw [List.map_append]
    exact hprefix.sublist.append_left _
  have hdone := (List.nodup_append'.1 (h.settled.nodup_iff.2 hall)).1
  exact List.Nodup.of_map _ hdone

/-- Once everything has returned, everything is done with. -/
theorem Good.done (h : Good s) (hcalls : ∀ p, s.calls p = .idle) (hc : s.core = .idle)
    (henabled : s.enabled = false) : (s.processed ++ s.deleted).Perm s.created ∧ s.sized.mqSize = 0 := by
  have hlegal := h.legal
  rw [hc] at hlegal
  have hpointer : s.pointer = .null := by
    rcases hlegal with ⟨-, hp, -⟩ | ⟨he, -⟩
    · exact hp
    · rw [henabled] at he
      cases he
  have hquiet := h.quiet (.inl (by rw [hpointer]; simp))
  have hcreated : s.created.Perm (s.earlier ++ s.sized.queue.exchanged) := by
    refine h.placed.perm fun p => ?_
    rw [hcalls p]
    rfl
  have hsettled := h.settled
  simp only [Settled, inHand, hquiet.drained.1, List.append_nil, hquiet.returned_eq h.reach,
    ← List.map_append] at hsettled
  exact ⟨((List.map_perm_map_iff msg_injective).1 hsettled).trans hcreated.symm, hquiet.drained.2⟩

/-! ## The drain loop -/

/-- A step of `initialize` or `finalize`. -/
def Action.isCore : Action P M → Bool
  | .core => true
  | _ => false

/-- In the drain loop and with no call in progress only the core can do
anything. -/
theorem drain_step {a : Action P M} (hc : s.core = .drain) (hcalls : ∀ p, s.calls p = .idle)
    (henabled : s.enabled = false) (hprocessor : s.processor = .stopped) (hs : step s a = .ok s') :
    (a.isCore = false ∧ s' = s) ∨ (a = .core ∧ coreStep s = .ok s') := by
  cases a with
  | testEnabled p =>
    simp only [step, hcalls p, henabled, Bool.false_eq_true, if_false, Except.ok.injEq] at hs
    refine .inl ⟨rfl, ?_⟩
    rw [← hs, Function.update_eq_self_iff.2 (hcalls p).symm, ← henabled]
  | processor => simp [step, processorStep, hprocessor] at hs
  | callInitialize => simp [step, hc] at hs
  | callFinalize => simp [step, hc] at hs
  | core => exact .inr ⟨rfl, hs⟩
  | _ => simp [step, hcalls] at hs

/-- The loop ends, whatever the others do meanwhile. -/
theorem drain_run {k : Nat} {as : List (Action P M)} (hrun : run step s as = .ok s')
    (hc : s.core = .drain) (hcalls : ∀ p, s.calls p = .idle) (henabled : s.enabled = false)
    (hprocessor : s.processor = .stopped) (hlive : s.pointer = .live ∨ k = 0)
    (hk : Drained (SizedState.consume^[k] s.sized)) (has : k < as.countP Action.isCore) :
    ∃ pre post t, as = pre ++ post ∧ run step s pre = .ok t ∧ t.core = .zeroDrained ∧ t.sized.mqSize = 0 := by
  induction as generalizing s k with
  | nil => simp at has
  | cons a as ih =>
    obtain ⟨m, hs, hrest⟩ := run_cons_ok.1 hrun
    rcases drain_step hc hcalls henabled hprocessor hs with ⟨hcore, rfl⟩ | ⟨rfl, hstep⟩
    · rw [List.countP_cons_of_neg (by simp [hcore])] at has
      obtain ⟨pre, post, t, rfl, hpre, ht⟩ := ih hrest hc hcalls henabled hprocessor hlive hk has
      exact ⟨a :: pre, post, t, rfl, run_cons_ok.2 ⟨_, hs, hpre⟩, ht⟩
    · simp only [coreStep, hc] at hstep
      split_ifs at hstep with hdrained
      · obtain rfl := Except.ok.inj hstep
        exact ⟨[.core], as, _, rfl, run_singleton_ok.2 hs, rfl, hdrained.2⟩
      · obtain rfl := Except.ok.inj hstep
        cases k with
        | zero => exact absurd hk hdrained
        | succ k =>
          have hlive : s.pointer = .live := hlive.resolve_right (Nat.succ_ne_zero k)
          have hconsumed : s.consumed = s.sized.consume := by simp [State.consumed, hlive]
          rw [List.countP_cons_of_pos rfl] at has
          rw [hconsumed] at hs hrest
          obtain ⟨pre, post, t, rfl, hpre, ht⟩ := ih hrest rfl hcalls henabled hprocessor (.inl hlive) hk
            (by omega)
          exact ⟨.core :: pre, post, t, rfl, run_cons_ok.2 ⟨_, hs, hpre⟩, ht⟩

omit [DecidableEq P] in
/-- Without a queue the loop goes round and leaves the counter as it is. -/
theorem consumed_spins (hpointer : s.pointer ≠ .live) (hsize : s.sized.mqSize ≠ 0)
    (hconsumer : s.sized.consumer = .idle ∨ s.sized.consumer = .popping) :
    s.consumed.mqSize = s.sized.mqSize ∧ (s.consumed.consumer = .idle ∨ s.consumed.consumer = .popping) := by
  rcases hconsumer with hc | hc
  · have heq : s.consumed = { s.sized with consumer := .popping } := by
      simp [State.consumed, hc, SizedState.consume_of_nonempty hc hsize]
    rw [heq]
    exact ⟨rfl, .inr rfl⟩
  · have heq : s.consumed = { s.sized with consumer := .idle } := by
      simp [State.consumed, hc, hpointer]
    rw [heq]
    exact ⟨rfl, .inl rfl⟩

/-- A drain loop without a queue does not end, unless it reads 0. -/
theorem drain_spins (hc : s.core = .drain) (hpointer : s.pointer ≠ .live) (hsize : s.sized.mqSize ≠ 0)
    (hconsumer : s.sized.consumer = .idle ∨ s.sized.consumer = .popping) (n : Nat) :
    ∃ t, run step s (List.replicate n .core) = .ok t ∧ t.core = .drain ∧ t.sized.mqSize = s.sized.mqSize := by
  induction n generalizing s with
  | zero => exact ⟨s, rfl, hc, rfl⟩
  | succ n ih =>
    have hstep : step s .core =
        .ok { s with sized := s.consumed, deleted := s.deleted ++ s.obtained } := by
      simp [step, coreStep, hc, hsize]
    obtain ⟨hsame, hconsumed⟩ := consumed_spins hpointer hsize hconsumer
    obtain ⟨t, ht, htc, htsize⟩ :=
      ih (s := { s with sized := s.consumed, deleted := s.deleted ++ s.obtained }) hc hpointer
        (by simpa only [hsame] using hsize) hconsumed
    exact ⟨t, run_cons_ok.2 ⟨_, hstep, ht⟩, htc, htsize.trans hsame⟩

/-- **Shutdown.** In a run whose steps are all orderly, whatever the
interleaving: no step is undefined behaviour, and no message is done with twice;
once every call has returned, and `finalize` has, every message created has been
processed or deleted, once, and `mq_size` is 0; and a drain loop with no call in
progress is never stuck and leaves with `mq_size` 0, after a number of its steps
that the counter bounds, whatever is called meanwhile. -/
theorem shutdown_orderly {as : List (Action P M)} (hrun : run step State.new as = .ok s)
    (horderly : Throughout step State.new as fun _ s a => Orderly s a) :
    (∀ a, Orderly s a → step s a ≠ .error .undefinedBehaviour) ∧
    s.created.Nodup ∧ (s.processed ++ s.deleted).Nodup ∧
    ((∀ p, s.calls p = .idle) → s.core = .idle → s.enabled = false →
      (s.processed ++ s.deleted).Perm s.created ∧ s.sized.mqSize = 0) ∧
    (s.core = .drain → (∃ s', step s .core = .ok s') ∧
      ((∀ p, s.calls p = .idle) → ∀ bs s', run step s bs = .ok s' →
        10 * s.sized.mqSize + 10 ≤ bs.countP Action.isCore →
        ∃ pre post t, bs = pre ++ post ∧ run step s pre = .ok t ∧
          t.core = .zeroDrained ∧ t.sized.mqSize = 0)) := by
  have h := good_run hrun horderly
  refine ⟨fun a ho => h.defined ho, h.placed.made_nodup, h.nodup, h.done, fun hc => ⟨?_, ?_⟩⟩
  · simp only [step, coreStep, hc]
    split_ifs
    · exact ⟨_, rfl⟩
    · exact ⟨_, rfl⟩
  · intro hcalls bs s' hbs hlen
    have hlegal := h.legal
    rw [hc] at hlegal
    obtain ⟨henabled, -, hprocessor⟩ := hlegal
    by_cases hpointer : s.pointer = .live
    · have hpush := h.noPush fun p => by rw [hcalls p]; rfl
      obtain ⟨k, hk, hdrained⟩ := drain_ends h.reach hpush
      exact drain_run hbs hc hcalls henabled hprocessor (.inl hpointer) hdrained (by omega)
    · have hquiet := h.quiet (.inl hpointer)
      exact drain_run hbs hc hcalls henabled hprocessor (.inr rfl) hquiet.drained (by omega)

/-- `n` steps of `initialize` or `finalize`. -/
def coreSteps (n : Nat) : List (Action Bool Nat) := List.replicate n .core

/-- A measuring point, up to `++mq_size`. -/
def pushes (p : Bool) (m : Nat) : List (Action Bool Nat) :=
  [.testEnabled p, .create p m, .testQueue p, .start p, .exchange p, .link p]

/-- Two messages are pushed, the processor thread gets to the first, and
`finalize` is called twice. -/
def twoMessages : List (Action Bool Nat) :=
  List.flatten [[.callInitialize], coreSteps 6, pushes true 1, pushes false 2,
    [.increment false, .increment true], List.replicate 6 .processor, [.callFinalize, .core, .processor],
    coreSteps 14, [.callFinalize], coreSteps 6]

theorem shutdown_orderly_sample : ∃ s, run step State.new twoMessages = .ok s ∧
    s.processed = [1] ∧ s.deleted = [2] ∧ (s.processed ++ s.deleted).Perm s.created := by
  obtain ⟨s, hs, hprocessed, hdeleted, hcalls, hc, henabled⟩ : ∃ s, run step State.new twoMessages = .ok s ∧
      s.processed = [1] ∧ s.deleted = [2] ∧ (∀ p, s.calls p = .idle) ∧ s.core = .idle ∧
      s.enabled = false := by
    decide +kernel
  have horderly : Throughout step State.new twoMessages fun _ s a => Orderly s a :=
    throughout_of_meets (by decide +kernel)
  exact ⟨s, hs, hprocessed, hdeleted, ((shutdown_orderly hs horderly).2.2.2.1 hcalls hc henabled).1⟩

/-- A message is pushed before `finalize` and counted after it. -/
def lateIncrement : List (Action Bool Nat) :=
  List.flatten [[.callInitialize], coreSteps 6, pushes true 1, [.callFinalize, .core, .processor],
    coreSteps 5, [.increment true]]

/-- A producer that has exchanged and linked its node, and not counted it, while
`finalize` drains: the message is lost with the queue, its increment is left
over, and the next drain loop does not end. -/
theorem late_increment : ∃ s, run step State.new lateIncrement = .ok s ∧
    (∀ p, s.calls p = .idle) ∧ s.core = .idle ∧ s.enabled = false ∧
    s.created = [1] ∧ s.processed ++ s.deleted = [] ∧ s.sized.mqSize = 1 ∧
    ∃ t, run step s [.callFinalize, .core, .core] = .ok t ∧ t.core = .drain ∧ (∀ p, t.calls p = .idle) ∧
      ∀ n, ∃ u, run step t (List.replicate n .core) = .ok u ∧ u.core = .drain ∧ u.sized.mqSize = 1 := by
  obtain ⟨s, hs, hcalls, hc, henabled, hcreated, hdone, hsize, t, ht, htc, htcalls, hpointer, hidle, hleft⟩ :
      ∃ s, run step State.new lateIncrement = .ok s ∧
        (∀ p, s.calls p = .idle) ∧ s.core = .idle ∧ s.enabled = false ∧
        s.created = [1] ∧ s.processed ++ s.deleted = [] ∧ s.sized.mqSize = 1 ∧
        ∃ t, run step s [.callFinalize, .core, .core] = .ok t ∧ t.core = .drain ∧ (∀ p, t.calls p = .idle) ∧
          t.pointer ≠ .live ∧ t.sized.consumer = .idle ∧ t.sized.mqSize = 1 := by
    decide +kernel
  refine ⟨s, hs, hcalls, hc, henabled, hcreated, hdone, hsize, t, ht, htc, htcalls, fun n => ?_⟩
  obtain ⟨u, hu, huc, husize⟩ := drain_spins htc hpointer (by rw [hleft]; simp) (.inl hidle) n
  exact ⟨u, hu, huc, husize.trans hleft⟩

end Handystats.Core
