/-
An orderly step keeps `Good`.

The core's steps are taken one by one, the measuring points' by what they do to
a call and to the queue.
-/
import Handystats.CoreInvariants

namespace Handystats.Core

open MessageQueue Runs Handover

variable {P M : Type} [DecidableEq P] [DecidableEq M] {s s' : State P M}

/-! ## The core's steps -/

/-- A step of the core that does nothing to the queue. -/
theorem Good.control (h : Good s) {enabled : Bool} {pointer : Pointer} {processor : ProcessorState}
    {core : CoreState} (hlegal : core.Legal enabled pointer processor)
    (houtside : processor ≠ .consuming → core ≠ .drain → s.sized.consumer = .idle)
    (hquiet : pointer ≠ .live ∨ core.pastDrain = true → Quiet s.calls s.sized)
    (hzero : core = .zeroNew → s.sized.mqSize = 0) :
    Good { s with enabled := enabled, pointer := pointer, processor := processor, core := core } where
  reach := h.reach
  tied := h.tied
  placed := h.placed
  settled := h.settled
  legal := hlegal
  outside := houtside
  quiet := hquiet
  zero := hzero

/-- `initialize` or `finalize` is called. -/
theorem Good.called (h : Good s) (hc : s.core = .idle) {core : CoreState}
    (hlegal : CoreState.Legal s.enabled s.pointer s.processor .idle →
      core.Legal s.enabled s.pointer s.processor)
    (hpast : core.pastDrain = false) (hzero : core ≠ .zeroNew) : Good { s with core := core } := by
  have hidle := h.legal
  rw [hc] at hidle
  refine h.control (hlegal hidle) (fun hp _ => h.outside hp (by simp [hc])) (fun hq => ?_)
    fun hcore => absurd hcore hzero
  rw [hpast] at hq
  exact h.quiet (.inl (hq.resolve_right Bool.false_ne_true))

omit [DecidableEq P] [DecidableEq M] in
/-- `mq_size.store(0)` where it is 0. -/
theorem store_zero (h : s.sized.mqSize = 0) : { s.sized with mqSize := 0 } = s.sized := by
  rw [← h]

/-- With nobody left on the old queue, the new one is as good as the first. -/
theorem Good.newQueue (h : Good s) (hc : s.core = .newQueue) :
    Good { s.newQueue with core := .zeroNew } := by
  have hlegal := h.legal
  rw [hc] at hlegal
  obtain ⟨henabled, hpointer, hprocessor⟩ := hlegal
  obtain ⟨hcalls, ⟨hidle, hsize⟩, hreturned⟩ := h.quiet (.inl (by rw [hpointer]; simp))
  have hpush := h.noPush hcalls
  have hnew : s.newQueue.sized = SizedState.new := by
    have hinc : s.sized.incrementing = fun _ => false := funext hpush.incrementing
    simp only [State.newQueue, hinc, hsize]
    rfl
  have hall : s.sized.queue.returned = s.sized.queue.exchanged.map .msg := by
    refine (queue_refines_fifo h.reach.queue).2.1.eq_of_length ?_
    rw [hreturned, List.length_map]
  refine ⟨?_, fun p => ?_, ?_, ?_, ⟨henabled, rfl, hprocessor⟩, fun _ _ => ?_, fun hq => ?_, fun _ => ?_⟩
  · change SizedReachable s.newQueue.sized
    rw [hnew]
    exact ⟨[], rfl⟩
  · change Tied _ (s.newQueue.sized.queue.producers p) (s.newQueue.sized.incrementing p) (s.calls p)
    rw [hnew]
    exact Tied.of_none (hcalls p)
  · change Placed (fun p => inCall (s.newQueue.sized.queue.producers p) (s.calls p)) s.created
      (s.newQueue.earlier ++ s.newQueue.sized.queue.exchanged)
    rw [hnew]
    have hplaced := h.placed
    simp only [hpush.producers] at hplaced
    simpa [State.newQueue, SizedState.new, MessageQueue.State.new] using hplaced
  · change Settled _ s.newQueue.earlier s.newQueue.sized
    have hsettled := h.settled
    rw [hnew]
    simp only [Settled, inHand, hidle, hall] at hsettled
    simpa [Settled, inHand, State.newQueue, SizedState.new, MessageQueue.State.new,
      MessageQueue.State.returned] using hsettled
  · change s.newQueue.sized.consumer = .idle
    rw [hnew]
    rfl
  · rcases hq with hq | hq
    · exact absurd rfl hq
    · cases hq
  · change s.newQueue.sized.mqSize = 0
    rw [hnew]
    rfl

/-- The queue is there whenever the consumer is inside `pop`. -/
theorem Good.consumed (h : Good s) : s.consumed = s.sized.consume := by
  unfold State.consumed
  rw [if_neg]
  intro h
  obtain ⟨hpopping, hpointer⟩ := h
  have hidle := (h.quiet (.inl hpointer)).drained.1
  rw [hpopping] at hidle
  cases hidle

/-- An access of the consumer, be it the processor thread or `finalize`. -/
theorem Good.consume (h : Good s) {processed deleted : List M} {processor : ProcessorState}
    (hdone : (processed ++ deleted).Perm ((s.processed ++ s.deleted) ++ s.obtained))
    (hlegal : s.core.Legal s.enabled s.pointer processor)
    (houtside : processor ≠ .consuming → s.core ≠ .drain → s.sized.consume.consumer = .idle)
    (hlive : s.pointer = .live ∧ s.core.pastDrain = false) (hzero : s.core ≠ .zeroNew) :
    Good { s with
      sized := s.sized.consume, processed := processed, deleted := deleted, processor := processor } where
  reach := h.reach.step (a := .consume) rfl
  tied := fun p => by
    simp only [consume_producers, consume_incrementing]
    exact h.tied p
  placed := by
    simp only [consume_producers, consume_exchanged]
    exact h.placed
  settled := ((hdone.map _).append_right _).trans (h.settled.consume h.reach)
  legal := hlegal
  outside := houtside
  quiet := fun hq => by simp [hlive] at hq
  zero := fun hc => absurd hc hzero

/-- The drain loop ends with nobody inside `push`: the queue is empty. -/
theorem Good.leaveDrain (h : Good s) (hdrained : Drained s.sized)
    (hcalls : ∀ p, (s.calls p).inPush = false) : Quiet s.calls s.sized := by
  have hpush := h.noPush hcalls
  have hexact := h.reach.accounts.exact ⟨hpush.producers, hpush.incrementing, hdrained.1⟩
  rw [hdrained.2, Nat.add_zero] at hexact
  exact ⟨hcalls, hdrained, hexact⟩

theorem Good.coreStep (h : Good s) (ho : Orderly s .core) (hs : coreStep s = .ok s') : Good s' := by
  have hlegal := h.legal
  have houtside := h.outside
  have hquiet := h.quiet
  have hzero := h.zero
  unfold Core.coreStep at hs
  cases hc : s.core with
  | idle => simp [hc] at hs
  | testEnabled =>
    simp only [hc, Except.ok.injEq] at hs hlegal houtside hquiet
    subst hs
    refine h.control ?_ (fun hp _ => houtside hp (by simp)) ?_ ?_
    · rcases hlegal with ⟨he, hp, hr⟩ | ⟨he, hp, hr⟩
      · rw [he]
        exact ⟨rfl, hp, hr⟩
      · rw [he]
        exact .inr ⟨rfl, hp, hr⟩
    · intro hq
      refine hquiet (hq.imp_right fun hpast => ?_)
      split at hpast <;> cases hpast
    · intro hcore
      split at hcore <;> cases hcore
  | testQueue =>
    simp only [hc, Except.ok.injEq] at hs hlegal houtside hquiet
    subst hs
    rw [if_pos hlegal.2.1]
    exact h.control hlegal (fun hp _ => houtside hp (by simp)) (hquiet ·) (by simp)
  | newQueue =>
    simp only [hc, Except.ok.injEq] at hs
    subst hs
    exact h.newQueue hc
  | zeroNew =>
    simp only [hc, Except.ok.injEq] at hs hlegal houtside hquiet
    subst hs
    rw [store_zero (hzero hc)]
    exact h.control hlegal (fun hp _ => houtside hp (by simp)) (hquiet ·) (by simp)
  | enable =>
    simp only [hc, Except.ok.injEq] at hs hlegal houtside hquiet
    subst hs
    exact h.control ⟨rfl, hlegal.2⟩ (fun hp _ => houtside hp (by simp)) (hquiet ·) (by simp)
  | spawn =>
    simp only [hc, Except.ok.injEq] at hs hlegal houtside hquiet
    subst hs
    refine h.control (.inr ⟨hlegal.1, hlegal.2.1, by simp⟩) (fun _ _ => houtside ?_ (by simp)) (hquiet ·)
      (by simp)
    rw [hlegal.2.2]
    simp
  | disable =>
    simp only [hc, Except.ok.injEq] at hs hlegal houtside hquiet
    subst hs
    refine h.control ⟨rfl, ?_⟩ (fun hp _ => houtside hp (by simp)) (hquiet ·) (by simp)
    exact hlegal.symm.imp (·.2.1) (·.2)
  | join =>
    simp only [hc] at hs hlegal houtside hquiet
    split_ifs at hs with hstopped
    obtain rfl := Except.ok.inj hs
    refine h.control ⟨hlegal.1, ?_, hstopped⟩ (fun _ hcore => absurd rfl hcore) (hquiet ·) (by simp)
    rcases hlegal.2 with hp | ⟨hp, -⟩
    · simp [hp]
    · simp [hp]
  | drain =>
    simp only [hc] at hs hlegal houtside hquiet
    split_ifs at hs with hdrained
    · obtain rfl := Except.ok.inj hs
      have hq := h.leaveDrain hdrained (ho hc hdrained)
      exact h.control hlegal (fun _ _ => hdrained.1) (fun _ => hq) (by simp)
    · obtain rfl := Except.ok.inj hs
      have hlive : s.pointer = .live := by
        refine Classical.byContradiction fun hp => hdrained ?_
        exact (hquiet (.inl hp)).drained
      rw [h.consumed, ← hc]
      refine h.consume ?_ ?_ ?_ ⟨hlive, by rw [hc]; rfl⟩ (by simp [hc])
      · rw [List.append_assoc]
      · exact h.legal
      · exact fun _ hcore => absurd hc hcore
  | zeroDrained =>
    simp only [hc, Except.ok.injEq] at hs hlegal houtside hquiet
    subst hs
    have hq := hquiet (.inr rfl)
    rw [store_zero hq.drained.2]
    exact h.control hlegal (fun _ _ => hq.drained.1) (fun _ => hq) (by simp)
  | deleteQueue =>
    simp only [hc, Except.ok.injEq] at hs hlegal houtside hquiet
    subst hs
    have hq := hquiet (.inr rfl)
    refine h.control ⟨hlegal.1, ?_, hlegal.2.2⟩ (fun _ _ => hq.drained.1) (fun _ => hq) (by simp)
    split_ifs <;> simp
  | dropQueue =>
    simp only [hc, Except.ok.injEq] at hs hlegal houtside hquiet
    subst hs
    have hq := hquiet (.inr rfl)
    exact h.control (.inl ⟨hlegal.1, rfl, hlegal.2.2⟩) (fun _ _ => hq.drained.1) (fun _ => hq) (by simp)

/-! ## The processor thread's steps -/

section

variable {enabled : Bool} {pointer : Pointer} {processor processor' : ProcessorState} {core : CoreState}

/-- While the processor thread is there, the core is not near the queue. -/
theorem CoreState.Legal.running (h : core.Legal enabled pointer processor) (hr : processor ≠ .stopped) :
    pointer = .live ∧ core.pastDrain = false ∧ core ≠ .drain ∧ core ≠ .zeroNew := by
  cases core with
  | idle | testEnabled | disable =>
    rcases h with ⟨-, -, hstopped⟩ | ⟨-, hlive, -⟩
    · exact absurd hstopped hr
    · exact ⟨hlive, rfl, by simp, by simp⟩
  | join =>
    rcases h.2 with hlive | ⟨-, hstopped⟩
    · exact ⟨hlive, rfl, by simp, by simp⟩
    · exact absurd hstopped hr
  | _ => exact absurd h.2.2 hr

/-- The thread goes on, or ends where it is to. -/
theorem CoreState.Legal.proceed (h : core.Legal enabled pointer processor) (hr : processor ≠ .stopped)
    (hr' : enabled = true → processor' ≠ .stopped) : core.Legal enabled pointer processor' := by
  cases core with
  | idle | testEnabled | disable =>
    rcases h with ⟨-, -, hstopped⟩ | ⟨henabled, hlive, -⟩
    · exact absurd hstopped hr
    · exact .inr ⟨henabled, hlive, hr' henabled⟩
  | join => exact ⟨h.1, .inl (h.running hr).1⟩
  | _ => exact absurd h.2.2 hr

end

theorem Good.processorStep (h : Good s) (hs : processorStep s = .ok s') : Good s' := by
  have hlegal := h.legal
  unfold Core.processorStep at hs
  cases hp : s.processor with
  | stopped => simp [hp] at hs
  | testEnabled =>
    simp only [hp, Except.ok.injEq] at hs hlegal
    subst hs
    obtain ⟨-, -, hdrain, -⟩ := hlegal.running (by simp)
    have hidle := h.outside (by simp [hp]) hdrain
    refine h.control (hlegal.proceed (by simp) fun he => ?_) (fun _ _ => hidle) h.quiet h.zero
    rw [he]
    simp
  | consuming =>
    simp only [hp, Except.ok.injEq] at hs hlegal
    subst hs
    obtain ⟨hlive, hpast, -, hzero⟩ := hlegal.running (by simp)
    rw [h.consumed]
    refine h.consume ?_ (hlegal.proceed (by simp) fun _ => ?_) (fun hne _ => ?_) ⟨hlive, hpast⟩ hzero
    · rw [List.append_assoc, List.append_assoc]
      exact List.perm_append_comm.append_left _
    · split_ifs <;> simp
    · refine Classical.byContradiction fun hidle => hne ?_
      rw [if_neg hidle]

/-! ## The measuring points' steps -/

omit [DecidableEq M] in
theorem inCall_update (producers : P → Option (PushState M)) (calls : P → CallState M) (p : P)
    (push : Option (PushState M)) (call : CallState M) :
    (fun q => inCall (Function.update producers p push q) (Function.update calls p call q)) =
      Function.update (fun q => inCall (producers q) (calls q)) p (inCall push call) := by
  funext q
  by_cases hqp : q = p
  · subst hqp
    simp
  · simp [hqp]

/-- A call goes on outside `push`. -/
theorem Good.call (h : Good s) {p : P} {call : CallState M} {created : List M}
    (hp : (s.calls p).inPush = false) (hcall : call.inPush = false)
    (hplaced : Placed (Function.update (fun q => inCall (s.sized.queue.producers q) (s.calls q)) p
      (inCall none call)) created (s.earlier ++ s.sized.queue.exchanged)) :
    Good { s with calls := Function.update s.calls p call, created := created } where
  reach := h.reach
  tied := fun q => by
    by_cases hqp : q = p
    · subst hqp
      obtain ⟨hnone, hinc⟩ := (h.tied q).outside hp
      simp only [hnone, hinc, Function.update_self]
      exact Tied.of_none hcall
    · simp only [Function.update_of_ne hqp]
      exact h.tied q
  placed := by
    have hnone := ((h.tied p).outside hp).1
    rw [← inCall_update, ← hnone, Function.update_eq_self] at hplaced
    exact hplaced
  settled := h.settled
  legal := h.legal
  outside := h.outside
  quiet := fun hq => by
    have hquiet := h.quiet hq
    refine ⟨fun q => ?_, hquiet.drained, hquiet.returned⟩
    by_cases hqp : q = p
    · subst hqp
      simp only [Function.update_self]
      exact hcall
    · simp only [Function.update_of_ne hqp]
      exact hquiet.calls q
  zero := h.zero

/-- A call goes on inside `push`. -/
theorem Good.pushStep (h : Good s) {p : P} {a : SizedAction P M} {sized : SizedState P M}
    {calls : P → CallState M} (hs : sizedStep s.sized a = .ok sized)
    (hlive : s.pointer = .live ∧ s.core.pastDrain = false)
    (hother : ∀ q, q ≠ p → sized.queue.producers q = s.sized.queue.producers q ∧
      sized.incrementing q = s.sized.incrementing q ∧ calls q = s.calls q)
    (htied : Tied s.incarnation (sized.queue.producers p) (sized.incrementing p) (calls p))
    (hplaced : Placed (fun q => inCall (sized.queue.producers q) (calls q)) s.created
      (s.earlier ++ sized.queue.exchanged))
    (hconsumer : sized.consumer = s.sized.consumer)
    (hresults : sized.queue.results = s.sized.queue.results)
    (hzero : s.core = .zeroNew → sized.mqSize = s.sized.mqSize) :
    Good { s with sized := sized, calls := calls } where
  reach := h.reach.step hs
  tied := fun q => by
    by_cases hqp : q = p
    · subst hqp
      exact htied
    · obtain ⟨hproducer, hinc, hcall⟩ := hother q hqp
      simp only [hproducer, hinc, hcall]
      exact h.tied q
  placed := hplaced
  settled := by
    have hsettled := h.settled
    simp only [Settled, inHand, MessageQueue.State.returned, hconsumer, hresults] at hsettled ⊢
    exact hsettled
  legal := h.legal
  outside := fun hp hc => hconsumer.trans (h.outside hp hc)
  quiet := fun hq => by simp [hlive] at hq
  zero := fun hc => (hzero hc).trans (h.zero hc)

theorem sizedBy_ok {sized sized' : SizedState P M} {a : SizedAction P M} :
    sizedBy sized a = .ok sized' ↔ sizedStep sized a = .ok sized' := by
  unfold sizedBy
  cases sizedStep sized a with
  | ok t => simp
  | error e => simp

theorem Good.testEnabled (h : Good s) {p : P} (hs : step s (.testEnabled p) = .ok s') : Good s' := by
  simp only [step] at hs
  split at hs
  next hcall =>
    obtain rfl := Except.ok.inj hs
    have hin : (s.calls p).inPush = false := by rw [hcall]; rfl
    refine h.call hin (by split_ifs <;> rfl) ?_
    have hplaced := h.placed
    rw [Function.update_eq_self_iff.2]
    · exact hplaced
    · rw [hcall]
      split_ifs <;> rfl
  next => cases hs

theorem Good.create (h : Good s) {p : P} {m : M} (hs : step s (.create p m) = .ok s') : Good s' := by
  simp only [step] at hs
  split at hs
  next hcall =>
    split_ifs at hs with hm
    obtain rfl := Except.ok.inj hs
    have hin : (s.calls p).inPush = false := by rw [hcall]; rfl
    refine h.call hin rfl (h.placed.make ?_ hm)
    rw [hcall]
    rfl
  next => cases hs

theorem Good.testQueue (h : Good s) {p : P} (ho : Orderly s (.testQueue p))
    (hs : step s (.testQueue p) = .ok s') : Good s' := by
  simp only [step] at hs
  split at hs
  next m hcall =>
    rw [if_neg ho] at hs
    obtain rfl := Except.ok.inj hs
    have hin : (s.calls p).inPush = false := by rw [hcall]; rfl
    refine h.call hin rfl ?_
    rw [Function.update_eq_self_iff.2]
    · exact h.placed
    · rw [hcall]
      rfl
  next => cases hs

theorem Good.start (h : Good s) {p : P} (ho : Orderly s (.start p))
    (hs : step s (.start p) = .ok s') : Good s' := by
  simp only [step] at hs
  split at hs
  next m hcall =>
    rw [if_pos ho.1] at hs
    obtain ⟨sized, hsized, hs⟩ := bind_eq_ok.1 hs
    obtain rfl := Except.ok.inj hs
    rw [sizedBy_ok] at hsized
    obtain ⟨hinc, queue, hq, hqueue⟩ := sizedStep_start_ok.1 hsized
    obtain ⟨hnone, hm, rfl⟩ := step_start_ok.1 hq
    subst hqueue
    refine h.pushStep (p := p) hsized ho (fun q hqp => ?_) ?_ ?_ rfl rfl fun _ => rfl
    · simp [hqp]
    · simp only [Function.update_self]
      exact ⟨rfl, hinc, _, rfl, rfl⟩
    · rw [inCall_update, Function.update_eq_self_iff.2]
      · exact h.placed
      · rw [hcall]
        rfl
  next => cases hs

/-- The message passes from the call to the queue. -/
theorem Good.exchange (h : Good s) {p : P} (hs : step s (.exchange p) = .ok s') : Good s' := by
  simp only [step] at hs
  split at hs
  next m k hcall =>
    split_ifs at hs
    obtain ⟨sized, hsized, hs⟩ := bind_eq_ok.1 hs
    obtain rfl := Except.ok.inj hs
    rw [sizedBy_ok] at hsized
    obtain ⟨queue, hq, hqueue⟩ := sizedStep_exchange_ok.1 hsized
    obtain ⟨m', hp, rfl⟩ := step_exchange_ok.1 hq
    subst hqueue
    have htied := h.tied p
    rw [hcall, hp] at htied
    obtain ⟨hk, hinc, a, ha, hmessage⟩ := htied
    obtain rfl := Option.some.inj ha
    obtain rfl : m' = m := hmessage
    have hlive := h.live (p := p) (by rw [hcall]; rfl)
    refine h.pushStep (p := p) hsized hlive (fun q hqp => ?_) ?_ ?_ rfl rfl fun _ => rfl
    · simp [hqp]
    · simp only [Function.update_self, hcall]
      exact ⟨hk, hinc, _, rfl, rfl⟩
    · have hplaced := h.placed.handOver (p := p) (m := m') (by simp only [hp, hcall]; rfl)
      rw [List.append_assoc] at hplaced
      rw [← Function.update_eq_self p s.calls, inCall_update, hcall]
      exact hplaced
  next => cases hs

theorem Good.link (h : Good s) {p : P} (hs : step s (.link p) = .ok s') : Good s' := by
  simp only [step] at hs
  split at hs
  next m k hcall =>
    split_ifs at hs
    obtain ⟨sized, hsized, hs⟩ := bind_eq_ok.1 hs
    obtain rfl := Except.ok.inj hs
    rw [sizedBy_ok] at hsized
    obtain ⟨queue, hq, hqueue⟩ := sizedStep_link_ok.1 hsized
    obtain ⟨m', prev, hp, rfl⟩ := step_link_ok.1 hq
    subst hqueue
    have hlive := h.live (p := p) (by rw [hcall]; rfl)
    refine h.pushStep (p := p) hsized hlive (fun q hqp => ?_) ?_ ?_ rfl rfl fun _ => rfl
    · simp [hqp]
    · simp only [Function.update_self]
      exact ⟨rfl, rfl⟩
    · rw [inCall_update, Function.update_eq_self_iff.2]
      · exact h.placed
      · rw [hcall, hp]
        rfl
  next => cases hs

theorem Good.increment (h : Good s) {p : P} (ho : Orderly s (.increment p))
    (hs : step s (.increment p) = .ok s') : Good s' := by
  simp only [step] at hs
  split at hs
  next hcall =>
    obtain ⟨sized, hsized, hs⟩ := bind_eq_ok.1 hs
    obtain rfl := Except.ok.inj hs
    rw [sizedBy_ok] at hsized
    obtain ⟨hinc, rfl⟩ := sizedStep_increment_ok.1 hsized
    have htied := h.tied p
    rw [hcall] at htied
    have hlive := h.live (p := p) (by rw [hcall]; rfl)
    refine h.pushStep (p := p) hsized hlive (fun q hqp => ?_) ?_ ?_ rfl rfl fun hc => absurd hc ho
    · simp [hqp]
    · simp only [Function.update_self]
      exact ⟨htied.1, rfl⟩
    · rw [← Function.update_eq_self p s.sized.queue.producers, inCall_update, Function.update_eq_self_iff.2]
      · exact h.placed
      · rw [hcall]
        rfl
  next => cases hs

/-! ## All steps -/

/-- An orderly step keeps the invariant. -/
theorem good_step {a : Action P M} (h : Good s) (ho : Orderly s a) (hs : step s a = .ok s') : Good s' := by
  cases a with
  | testEnabled p => exact h.testEnabled hs
  | create p m => exact h.create hs
  | testQueue p => exact h.testQueue ho hs
  | start p => exact h.start ho hs
  | exchange p => exact h.exchange hs
  | link p => exact h.link hs
  | increment p => exact h.increment ho hs
  | processor => exact h.processorStep hs
  | callInitialize =>
    simp only [step] at hs
    split_ifs at hs with hc
    obtain rfl := Except.ok.inj hs
    exact h.called hc id rfl (by simp)
  | callFinalize =>
    simp only [step] at hs
    split_ifs at hs with hc
    obtain rfl := Except.ok.inj hs
    exact h.called hc id rfl (by simp)
  | core => exact h.coreStep ho hs

end Handystats.Core
