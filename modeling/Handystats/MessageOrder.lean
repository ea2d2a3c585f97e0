/-
The order of the messages, in every run of the core.

`Flow` says where each message is and in which order: what a measuring point has
created, what of it has reached a queue, and what the processor thread has got
through. Unlike `Good` it needs no orderly run. Messages may be lost at
`initialize` and `finalize`; none is done with twice, and none of a measuring
point's overtakes another of the same (`processed_in_order`).
-/
import Handystats.CoreShutdown

namespace Handystats.Core

open MessageQueue Runs Handover

variable {P M : Type}

/-- The message that the step has this measuring point create. -/
def Action.createdBy [DecidableEq P] (p : P) : Action P M → Option M
  | .create q m => if q = p then some m else none
  | _ => none

/-- The messages that a measuring point creates, in order. -/
def createdBy [DecidableEq P] (as : List (Action P M)) (p : P) : List M := as.filterMap (Action.createdBy p)

/-- The nodes that are messages. -/
def Node.msg? : Node M → Option M
  | .stub => none
  | .msg m => some m

theorem filterMap_msg (ms : List M) : (ms.map Node.msg).filterMap Node.msg? = ms := by
  rw [List.filterMap_map]
  exact List.filterMap_some

theorem exists_map_msg {nodes : List (Node M)} {ms : List M} (h : ∀ x ∈ nodes, x ∈ ms.map Node.msg) :
    ∃ hand : List M, hand.map Node.msg = nodes := by
  have hrange : nodes ∈ Set.range (List.map Node.msg) := by
    rw [Set.range_list_map]
    intro x hx
    obtain ⟨m, -, hm⟩ := List.mem_map.1 (h x hx)
    exact ⟨m, hm⟩
  exact hrange

theorem Settled.append {done earlier : List M} {sized : SizedState P M} (h : Settled done earlier sized)
    (nodes : List (Node M)) :
    (done.map Node.msg ++ (inHand sized ++ nodes)).Perm (earlier.map Node.msg ++ (sized.queue.returned ++ nodes)) := by
  rw [← List.append_assoc, ← List.append_assoc]
  exact List.Perm.append_right nodes h

variable [DecidableEq P] [DecidableEq M] {s s' : State P M} {made : P → List M}

omit [DecidableEq M] in
theorem createdBy_concat (as : List (Action P M)) (a : Action P M) (p : P) :
    createdBy (as ++ [a]) p = createdBy as p ++ (a.createdBy p).toList := by
  cases h : a.createdBy p <;> simp [createdBy, h]

theorem returned_inOrder {queue : MessageQueue.State P M} (h : Reachable queue) :
    queue.returned <+: queue.exchanged.map .msg := by
  obtain ⟨-, ops, hops⟩ := reachable_refines h
  exact Fifo.left_prefix hops

theorem reachable_run {queue queue' : MessageQueue.State P M} {as : List (MessageQueue.Action P M)}
    (h : Reachable queue) (hs : run MessageQueue.step queue as = .ok queue') : Reachable queue' := by
  obtain ⟨before, hbefore⟩ := h
  exact ⟨before ++ as, run_append_ok.2 ⟨queue, hbefore, hs⟩⟩

/-- Where the messages are, the measuring points having created these. -/
structure Flow (made : P → List M) (s : State P M) : Prop where
  agree : ∀ p a, s.sized.queue.producers p = some a → ∃ k, s.calls p = .pushing a.message k
  created : ∀ p m, m ∈ made p → m ∈ s.created
  made_nodup : ∀ p, (made p).Nodup
  ordered : Ordered (fun p => inCall (s.sized.queue.producers p) (s.calls p)) made
    (s.earlier ++ s.sized.queue.exchanged)
  reach : Reachable s.sized.queue
  processed : (s.processed.map Node.msg ++ inHand s.sized).Sublist
    (s.earlier.map Node.msg ++ s.sized.queue.returned)
  settled : ∃ lost, Settled (s.processed ++ s.deleted ++ lost) s.earlier s.sized

theorem flow_new : Flow (fun _ => []) (State.new : State P M) where
  agree := fun _ _ h => by cases h
  created := fun _ _ h => by cases h
  made_nodup := fun _ => List.nodup_nil
  ordered := ordered_empty
  reach := ⟨[], rfl⟩
  processed := List.Sublist.refl _
  settled := ⟨[], List.Perm.refl _⟩

/-! ## The core and the processor thread -/

/-- A step that leaves the queue alone. -/
theorem Flow.control (h : Flow made s) (enabled : Bool) (pointer : Pointer) (processor : ProcessorState)
    (core : CoreState) (mqSize : Nat) :
    Flow made { s with
      enabled := enabled
      pointer := pointer
      processor := processor
      core := core
      sized := { s.sized with mqSize := mqSize } } :=
  ⟨h.agree, h.created, h.made_nodup, h.ordered, h.reach, h.processed, h.settled⟩

/-- What is left of an earlier queue is lost. -/
theorem Flow.newQueue (h : Flow made s) (core : CoreState) : Flow made { s.newQueue with core := core } where
  agree := fun _ _ hp => by cases hp
  created := h.created
  made_nodup := h.made_nodup
  ordered := by
    have hdropped : Ordered (fun p => inCall none (s.calls p)) made (s.earlier ++ s.sized.queue.exchanged) := by
      refine h.ordered.drop fun p => ?_
      cases hcall : s.calls p with
      | pushing m k => exact .inl rfl
      | _ => exact .inr rfl
    simpa [State.newQueue, SizedState.new, MessageQueue.State.new] using hdropped
  reach := ⟨[], rfl⟩
  processed := by
    have hprocessed := (List.sublist_append_left _ _).trans h.processed
    have hall := hprocessed.trans ((returned_inOrder h.reach).sublist.append_left _)
    rw [← List.map_append] at hall
    simpa [State.newQueue, SizedState.new, MessageQueue.State.new, MessageQueue.State.returned, inHand] using hall
  settled := by
    obtain ⟨lost, hsettled⟩ := h.settled
    obtain ⟨rest, hrest⟩ := returned_inOrder h.reach
    have hall := hsettled.append rest
    rw [hrest, ← List.map_append] at hall
    obtain ⟨hand, hhand⟩ := exists_map_msg fun x hx => hall.subset (List.mem_append_right _ hx)
    refine ⟨lost ++ hand, ?_⟩
    rw [← hhand, ← List.map_append, List.append_assoc] at hall
    simpa [Settled, State.newQueue, SizedState.new, MessageQueue.State.new, MessageQueue.State.returned, inHand]
      using hall

/-- An access of the consumer: what `pop` returns goes into its hand, and what it
comes out with leaves it. -/
theorem consumed_hand (h : Flow made s) : ∃ popped, s.consumed.queue.returned = s.sized.queue.returned ++ popped ∧
    inHand s.sized ++ popped = s.obtained.map Node.msg ++ inHand s.consumed := by
  have hobtained : s.sized.consumer ≠ .readSize → s.obtained = [] := by
    intro hc
    unfold State.obtained
    split
    · contradiction
    · rfl
  unfold State.consumed
  split_ifs with hgone
  · refine ⟨[], (List.append_nil _).symm, ?_⟩
    rw [hobtained (by simp [hgone.1])]
    simp [inHand, hgone.1]
  · cases hc : s.sized.consumer with
    | idle =>
      refine ⟨[], ?_⟩
      rw [hobtained (by simp [hc])]
      by_cases hsize : s.sized.mqSize = 0
      · rw [SizedState.consume_of_empty hc hsize]
        simp
      · rw [SizedState.consume_of_nonempty hc hsize]
        simp [inHand, hc]
    | popping =>
      rw [hobtained (by simp [hc]), SizedState.consume_popping hc]
      rcases afterPop_cases s.sized.queue with ⟨ha, -, hres⟩ | ⟨ha, -, hres⟩ | ⟨node, ha, -, hres⟩
      · exact ⟨[], by simp [MessageQueue.State.returned, hres], by simp [inHand, hc, ha]⟩
      · exact ⟨[], by simp [MessageQueue.State.returned, hres], by simp [inHand, hc, ha]⟩
      · have hlast : s.sized.queue.pop.returned = s.sized.queue.returned ++ [node] := by
          simp [MessageQueue.State.returned, hres]
        exact ⟨[node], hlast, by simp [inHand, hc, ha, hlast]⟩
    | decrement =>
      refine ⟨[], ?_⟩
      rw [hobtained (by simp [hc]), SizedState.consume_decrement hc]
      simp [inHand, hc]
    | readSize =>
      refine ⟨[], ?_⟩
      rw [SizedState.consume_readSize hc]
      cases hlast : s.sized.queue.returned.getLast? with
      | none => simp [State.obtained, inHand, hc, hlast]
      | some node =>
        cases node with
        | stub =>
          have hmem := (returned_inOrder h.reach).subset (List.mem_of_getLast? hlast)
          simp at hmem
        | msg m => simp [State.obtained, inHand, hc, hlast]

omit [DecidableEq P] in
theorem consumed_producers : s.consumed.queue.producers = s.sized.queue.producers := by
  unfold State.consumed
  split_ifs
  · rfl
  · exact consume_producers s.sized

omit [DecidableEq P] in
theorem consumed_exchanged : s.consumed.queue.exchanged = s.sized.queue.exchanged := by
  unfold State.consumed
  split_ifs
  · rfl
  · exact consume_exchanged s.sized

theorem consumed_reach (h : Reachable s.sized.queue) : Reachable s.consumed.queue := by
  unfold State.consumed
  split_ifs
  · exact h
  · obtain ⟨as, has⟩ := sizedStep_queue (s := s.sized) (a := .consume) rfl
    exact reachable_run h has

/-- An access of the consumer. -/
theorem Flow.consumed (h : Flow made s) {processed deleted : List M} (processor : ProcessorState)
    (hp : processed = s.processed ∧ deleted = s.deleted ++ s.obtained ∨
      processed = s.processed ++ s.obtained ∧ deleted = s.deleted) :
    Flow made { s with
      sized := s.consumed, processed := processed, deleted := deleted, processor := processor } where
  agree := by
    rw [consumed_producers]
    exact h.agree
  created := h.created
  made_nodup := h.made_nodup
  ordered := by
    simp only [consumed_producers, consumed_exchanged]
    exact h.ordered
  reach := consumed_reach h.reach
  processed := by
    obtain ⟨popped, hreturned, hhand⟩ := consumed_hand h
    have hgrown := h.processed.append_right popped
    rw [List.append_assoc, List.append_assoc, hhand, ← hreturned, ← List.append_assoc, ← List.map_append] at hgrown
    refine (List.Sublist.append_right (List.Sublist.map _ ?_) _).trans hgrown
    rcases hp with ⟨rfl, -⟩ | ⟨rfl, -⟩
    · exact List.sublist_append_left _ _
    · exact List.Sublist.refl _
  settled := by
    obtain ⟨popped, hreturned, hhand⟩ := consumed_hand h
    obtain ⟨lost, hsettled⟩ := h.settled
    refine ⟨lost, ?_⟩
    have hgrown := hsettled.append popped
    rw [hhand, ← hreturned, ← List.append_assoc, ← List.map_append] at hgrown
    refine List.Perm.trans (List.Perm.append_right _ (List.Perm.map _ ?_)) hgrown
    rcases hp with ⟨rfl, rfl⟩ | ⟨rfl, rfl⟩
    all_goals
      simp only [List.perm_iff_count, List.count_append]
      intro m
      omega

theorem Flow.coreStep (h : Flow made s) (hs : coreStep s = .ok s') : Flow made s' := by
  unfold Core.coreStep at hs
  cases hc : s.core with
  | idle => simp [hc] at hs
  | newQueue =>
    simp only [hc, Except.ok.injEq] at hs
    subst hs
    exact h.newQueue .zeroNew
  | join =>
    simp only [hc] at hs
    split_ifs at hs
    obtain rfl := Except.ok.inj hs
    exact h.control s.enabled s.pointer s.processor _ s.sized.mqSize
  | drain =>
    simp only [hc] at hs
    split_ifs at hs
    · obtain rfl := Except.ok.inj hs
      exact h.control s.enabled s.pointer s.processor _ s.sized.mqSize
    · obtain rfl := Except.ok.inj hs
      rw [← hc]
      exact h.consumed s.processor (.inl ⟨rfl, rfl⟩)
  | _ =>
    simp only [hc, Except.ok.injEq] at hs
    subst hs
    exact h.control _ _ _ _ _

theorem Flow.processorStep (h : Flow made s) (hs : processorStep s = .ok s') : Flow made s' := by
  unfold Core.processorStep at hs
  cases hp : s.processor with
  | stopped => simp [hp] at hs
  | testEnabled =>
    simp only [hp, Except.ok.injEq] at hs
    subst hs
    exact h.control s.enabled s.pointer _ s.core s.sized.mqSize
  | consuming =>
    simp only [hp, Except.ok.injEq] at hs
    subst hs
    exact h.consumed _ (.inr ⟨rfl, rfl⟩)

/-! ## The measuring points -/

variable {p : P} {m : M}

theorem Flow.producer_none (h : Flow made s) (hp : ∀ m k, s.calls p ≠ .pushing m k) :
    s.sized.queue.producers p = none := by
  cases hpush : s.sized.queue.producers p with
  | none => rfl
  | some a =>
    obtain ⟨k, hk⟩ := h.agree p a hpush
    exact absurd hk (hp _ _)

/-- A call goes on with its message, or drops it. -/
theorem Flow.call (h : Flow made s) {call : CallState M} (hp : ∀ m k, s.calls p ≠ .pushing m k)
    (hcall : inCall none call = none ∨ inCall none call = inCall none (s.calls p)) (mqSize : Nat)
    (incrementing : P → Bool) :
    Flow made { s with
      calls := Function.update s.calls p call
      sized := { s.sized with mqSize := mqSize, incrementing := incrementing } } where
  agree := fun q a hq => by
    by_cases hqp : q = p
    · subst hqp
      rw [h.producer_none hp] at hq
      cases hq
    · simp only [Function.update_of_ne hqp]
      exact h.agree q a hq
  created := h.created
  made_nodup := h.made_nodup
  ordered := by
    refine h.ordered.drop fun q => ?_
    by_cases hqp : q = p
    · subst hqp
      simp only [Function.update_self, h.producer_none hp]
      exact hcall
    · exact .inr (by simp only [Function.update_of_ne hqp])
  reach := h.reach
  processed := h.processed
  settled := h.settled

theorem Flow.create (h : Flow made s) (hs : step s (.create p m) = .ok s') :
    Flow (Function.update made p (made p ++ [m])) s' := by
  simp only [step] at hs
  split at hs
  next hcall =>
    split_ifs at hs with hm
    obtain rfl := Except.ok.inj hs
    have hnone := h.producer_none (p := p) (by simp [hcall])
    have hfresh : ∀ q, m ∉ made q := fun q hq => hm (h.created q m hq)
    refine ⟨fun q a hq => ?_, fun q x hx => ?_, fun q => ?_, ?_, h.reach, h.processed, h.settled⟩
    · by_cases hqp : q = p
      · subst hqp
        simp only [hnone] at hq
        cases hq
      · simp only [Function.update_of_ne hqp]
        exact h.agree q a hq
    · by_cases hqp : q = p
      · subst hqp
        rw [Function.update_self] at hx
        rcases List.mem_append.1 hx with hx | hx
        · exact List.mem_append_left _ (h.created q x hx)
        · exact List.mem_append_right _ hx
      · rw [Function.update_of_ne hqp] at hx
        exact List.mem_append_left _ (h.created q x hx)
    · by_cases hqp : q = p
      · subst hqp
        rw [Function.update_self, ← List.concat_eq_append]
        exact (h.made_nodup q).concat (hfresh q)
      · rw [Function.update_of_ne hqp]
        exact h.made_nodup q
    · have hempty : inCall (s.sized.queue.producers p) (s.calls p) = none := by rw [hcall]; rfl
      have hmade := h.ordered.make hempty hfresh
      change Ordered (fun q => inCall (s.sized.queue.producers q) _) _ _
      rw [← Function.update_eq_self p s.sized.queue.producers, inCall_update, hnone]
      exact hmade
  next => cases hs

/-- A step inside `push`: what becomes of the producer and of the message. -/
theorem Flow.pushStep (h : Flow made s) {a : SizedAction P M} {sized : SizedState P M}
    (push : Option (PushState M)) {call : CallState M} (hs : sizedStep s.sized a = .ok sized)
    (hproducers : sized.queue.producers = Function.update s.sized.queue.producers p push)
    (hagree : ∀ a, push = some a → ∃ k, call = .pushing a.message k)
    (hordered : Ordered (Function.update (fun q => inCall (s.sized.queue.producers q) (s.calls q)) p
      (inCall push call)) made (s.earlier ++ sized.queue.exchanged))
    (hresults : sized.queue.results = s.sized.queue.results) (hconsumer : sized.consumer = s.sized.consumer) :
    Flow made { s with sized := sized, calls := Function.update s.calls p call } where
  agree := fun q a hq => by
    rw [hproducers] at hq
    by_cases hqp : q = p
    · subst hqp
      simp only [Function.update_self] at hq ⊢
      exact hagree a hq
    · simp only [Function.update_of_ne hqp] at hq ⊢
      exact h.agree q a hq
  created := h.created
  made_nodup := h.made_nodup
  ordered := by
    simp only [hproducers]
    rw [inCall_update]
    exact hordered
  reach := by
    obtain ⟨as, has⟩ := sizedStep_queue hs
    exact reachable_run h.reach has
  processed := by
    have hprocessed := h.processed
    simp only [inHand, MessageQueue.State.returned, hresults, hconsumer] at hprocessed ⊢
    exact hprocessed
  settled := by
    have hsettled := h.settled
    simp only [Settled, inHand, MessageQueue.State.returned, hresults, hconsumer] at hsettled ⊢
    exact hsettled

theorem Flow.start (h : Flow made s) (hs : step s (.start p) = .ok s') : Flow made s' := by
  simp only [step] at hs
  split at hs
  next m hcall =>
    split_ifs at hs
    obtain ⟨sized, hsized, hs⟩ := bind_eq_ok.1 hs
    obtain rfl := Except.ok.inj hs
    rw [sizedBy_ok] at hsized
    obtain ⟨-, queue, hq, hqueue⟩ := sizedStep_start_ok.1 hsized
    obtain ⟨hnone, -, rfl⟩ := step_start_ok.1 hq
    subst hqueue
    refine h.pushStep (some (.exchange m)) hsized rfl (fun a ha => ?_) ?_ rfl rfl
    · obtain rfl := Option.some.inj ha
      exact ⟨_, rfl⟩
    · rw [Function.update_eq_self_iff.2]
      · exact h.ordered
      · rw [hcall]
        rfl
  next => cases hs

/-- The message gets in line. -/
theorem Flow.exchange (h : Flow made s) (hs : step s (.exchange p) = .ok s') : Flow made s' := by
  simp only [step] at hs
  split at hs
  next m k hcall =>
    split_ifs at hs
    obtain ⟨sized, hsized, hs⟩ := bind_eq_ok.1 hs
    obtain rfl := Except.ok.inj hs
    rw [sizedBy_ok] at hsized
    obtain ⟨queue, hq, hqueue⟩ := sizedStep_exchange_ok.1 hsized
    obtain ⟨m', hp, rfl⟩ := step_exchange_ok.1 hq
    subst hqueue
    obtain ⟨k', hk⟩ := h.agree p _ hp
    rw [← Function.update_eq_self p s.calls]
    refine h.pushStep (some (.link m' s.sized.queue.headNode)) hsized rfl (fun a ha => ?_) ?_ rfl rfl
    · obtain rfl := Option.some.inj ha
      exact ⟨k', hk⟩
    · have hover := h.ordered.handOver (p := p) (m := m') (by simp only [hp, hk]; rfl)
      rw [List.append_assoc] at hover
      rw [hcall]
      exact hover
  next => cases hs

theorem Flow.link (h : Flow made s) (hs : step s (.link p) = .ok s') : Flow made s' := by
  simp only [step] at hs
  split at hs
  next m k hcall =>
    split_ifs at hs
    obtain ⟨sized, hsized, hs⟩ := bind_eq_ok.1 hs
    obtain rfl := Except.ok.inj hs
    rw [sizedBy_ok] at hsized
    obtain ⟨queue, hq, hqueue⟩ := sizedStep_link_ok.1 hsized
    obtain ⟨m', prev, hp, rfl⟩ := step_link_ok.1 hq
    subst hqueue
    refine h.pushStep none hsized rfl (fun a ha => by cases ha) ?_ rfl rfl
    rw [Function.update_eq_self_iff.2]
    · exact h.ordered
    · rw [hcall, hp]
      rfl
  next => cases hs

theorem Flow.increment (h : Flow made s) (hs : step s (.increment p) = .ok s') : Flow made s' := by
  simp only [step] at hs
  split at hs
  next hcall =>
    obtain ⟨sized, hsized, hs⟩ := bind_eq_ok.1 hs
    obtain rfl := Except.ok.inj hs
    rw [sizedBy_ok] at hsized
    obtain ⟨-, rfl⟩ := sizedStep_increment_ok.1 hsized
    exact h.call (by simp [hcall]) (.inl rfl) _ _
  next => cases hs

/-! ## Runs -/

theorem flow_step {as : List (Action P M)} {a : Action P M} (h : Flow (createdBy as) s) (hs : step s a = .ok s') :
    Flow (createdBy (as ++ [a])) s' := by
  have hmade : (∀ q, a.createdBy q = none) → createdBy (as ++ [a]) = createdBy as := by
    intro hnone
    funext q
    rw [createdBy_concat, hnone, Option.toList_none, List.append_nil]
  cases a with
  | create p m =>
    have hcreate : createdBy (as ++ [.create p m]) = Function.update (createdBy as) p (createdBy as p ++ [m]) := by
      funext q
      rw [createdBy_concat]
      by_cases hqp : q = p
      · subst hqp
        simp [Action.createdBy]
      · have hne : ¬ p = q := fun heq => hqp heq.symm
        simp [Action.createdBy, hqp, hne]
    rw [hcreate]
    exact h.create hs
  | testEnabled p =>
    rw [hmade fun _ => rfl]
    simp only [step] at hs
    split at hs
    next hcall =>
      obtain rfl := Except.ok.inj hs
      exact h.call (by simp [hcall]) (.inl (by split_ifs <;> rfl)) s.sized.mqSize s.sized.incrementing
    next => cases hs
  | testQueue p =>
    rw [hmade fun _ => rfl]
    simp only [step] at hs
    split at hs
    next m hcall =>
      obtain rfl := Except.ok.inj hs
      refine h.call (by simp [hcall]) ?_ s.sized.mqSize s.sized.incrementing
      rw [hcall]
      split_ifs
      · exact .inl rfl
      · exact .inr rfl
    next => cases hs
  | start p =>
    rw [hmade fun _ => rfl]
    exact h.start hs
  | exchange p =>
    rw [hmade fun _ => rfl]
    exact h.exchange hs
  | link p =>
    rw [hmade fun _ => rfl]
    exact h.link hs
  | increment p =>
    rw [hmade fun _ => rfl]
    exact h.increment hs
  | processor =>
    rw [hmade fun _ => rfl]
    exact h.processorStep hs
  | callInitialize =>
    rw [hmade fun _ => rfl]
    simp only [step] at hs
    split_ifs at hs
    obtain rfl := Except.ok.inj hs
    exact h.control s.enabled s.pointer s.processor _ s.sized.mqSize
  | callFinalize =>
    rw [hmade fun _ => rfl]
    simp only [step] at hs
    split_ifs at hs
    obtain rfl := Except.ok.inj hs
    exact h.control s.enabled s.pointer s.processor _ s.sized.mqSize
  | core =>
    rw [hmade fun _ => rfl]
    exact h.coreStep hs

theorem run_flow {as : List (Action P M)} (h : run step State.new as = .ok s) : Flow (createdBy as) s :=
  run_inv (I := fun as s => Flow (createdBy as) s) (fun _ _ _ _ hI hs => flow_step hI hs) flow_new h

/-- What is processed has got in line, in this order. -/
theorem Flow.processed_sublist (h : Flow made s) :
    s.processed.Sublist (s.earlier ++ s.sized.queue.exchanged) := by
  have hline := ((List.sublist_append_left _ _).trans h.processed).trans
    ((returned_inOrder h.reach).sublist.append_left _)
  rw [← List.map_append] at hline
  have hmessages := hline.filterMap Node.msg?
  rwa [filterMap_msg, filterMap_msg] at hmessages

/-- What is done with or in hand has got in line. -/
theorem Flow.settled_mem (h : Flow made s) {x : Node M}
    (hx : x ∈ (s.processed ++ s.deleted).map Node.msg ++ inHand s.sized) :
    x ∈ (s.earlier ++ s.sized.queue.exchanged).map Node.msg := by
  obtain ⟨lost, hsettled⟩ := h.settled
  rw [List.map_append]
  refine ((returned_inOrder h.reach).sublist.append_left _).subset (hsettled.subset ?_)
  rw [List.map_append]
  rcases List.mem_append.1 hx with hx | hx
  · exact List.mem_append_left _ (List.mem_append_left _ hx)
  · exact List.mem_append_right _ hx

/-- Nothing is done with twice, and what the consumer has in hand is not done
with. -/
theorem Flow.settled_nodup (h : Flow made s) :
    ((s.processed ++ s.deleted).map Node.msg ++ inHand s.sized).Nodup := by
  obtain ⟨lost, hsettled⟩ := h.settled
  have hline : (s.earlier.map Node.msg ++ s.sized.queue.returned).Nodup := by
    refine List.Nodup.sublist ((returned_inOrder h.reach).sublist.append_left _) ?_
    rw [← List.map_append]
    exact (h.ordered.nodup h.made_nodup).map msg_injective
  refine (hsettled.nodup_iff.2 hline).sublist ?_
  exact ((List.sublist_append_left _ _).map _).append_right _

/-- **Order.** In every run, orderly or not: what is processed or deleted was
created, nothing is done with twice, and of the messages of one measuring point
those that are processed are in the order in which it created them. -/
theorem processed_in_order {as : List (Action P M)} (h : run step State.new as = .ok s) :
    (s.processed ++ s.deleted).Nodup ∧ (∀ m ∈ s.processed ++ s.deleted, ∃ p, m ∈ createdBy as p) ∧
      ∀ p, (s.processed.filter (· ∈ createdBy as p)).Sublist (createdBy as p) := by
  have hflow := run_flow h
  refine ⟨(List.nodup_append'.1 hflow.settled_nodup).1.of_map _, fun m hm => ?_, fun p => ?_⟩
  · refine hflow.ordered.store_made m ?_
    have hmem := hflow.settled_mem (List.mem_append_left _ (List.mem_map_of_mem hm))
    simpa using hmem
  · exact (hflow.processed_sublist.filter _).trans
      ((List.sublist_append_left _ _).trans (hflow.ordered.order p))

/-- Two measuring points in each other's way: the second one's message gets in
line first. -/
def crossing : List (Action Bool Nat) :=
  List.flatten [[.callInitialize], coreSteps 6,
    [.testEnabled true, .create true 1, .testQueue true, .start true], pushes false 2,
    [.increment false, .exchange true, .link true, .increment true], pushes true 3, [.increment true],
    List.replicate 24 .processor]

theorem processed_in_order_sample : ∃ s, run step State.new crossing = .ok s ∧ s.processed = [2, 1, 3] ∧
    (s.processed.filter (· ∈ createdBy crossing true)).Sublist (createdBy crossing true) := by
  obtain ⟨s, hs, hprocessed⟩ : ∃ s, run step State.new crossing = .ok s ∧ s.processed = [2, 1, 3] := by
    decide +kernel
  exact ⟨s, hs, hprocessed, (processed_in_order hs).2.2 true⟩

end Handystats.Core
