/-
The accounts of the size counter.

A message is counted after it is exchanged into the queue, and it may be popped
before. `Accounts` keeps the books: the counter, the decrements that have run
and the producers that still owe an increment make up the messages exchanged.
The consumer decrements only after it has read a number that is not zero, and
nobody else decrements, so the counter does not wrap.
-/
import Mathlib.Data.Finset.Card
import Handystats.MessageQueueSize
import Handystats.MessageQueuePop

namespace Handystats.MessageQueue

open Runs

variable {P M : Type} [DecidableEq P] [DecidableEq M] {s s' : SizedState P M}

/-! ## The queue underneath -/

/-- A step is one of the queue's, or none. -/
theorem sizedStep_queue {a : SizedAction P M} (h : sizedStep s a = .ok s') :
    ∃ as, run step s.queue as = .ok s'.queue := by
  cases a with
  | start p m =>
    obtain ⟨-, queue, hq, rfl⟩ := sizedStep_start_ok.1 h
    exact ⟨[.start p m], run_singleton_ok.2 hq⟩
  | exchange p =>
    obtain ⟨queue, hq, rfl⟩ := sizedStep_exchange_ok.1 h
    exact ⟨[.exchange p], run_singleton_ok.2 hq⟩
  | link p =>
    obtain ⟨queue, hq, rfl⟩ := sizedStep_link_ok.1 h
    exact ⟨[.link p], run_singleton_ok.2 hq⟩
  | increment p =>
    obtain ⟨-, rfl⟩ := sizedStep_increment_ok.1 h
    exact ⟨[], rfl⟩
  | consume =>
    obtain rfl := Except.ok.inj h
    unfold SizedState.consume
    cases s.consumer with
    | idle => split_ifs <;> exact ⟨[], rfl⟩
    | popping => exact ⟨[.pop], rfl⟩
    | decrement => exact ⟨[], rfl⟩
    | readSize => exact ⟨[], rfl⟩

theorem SizedReachable.step {a : SizedAction P M} (h : SizedReachable s) (hs : sizedStep s a = .ok s') :
    SizedReachable s' := by
  obtain ⟨as, hrun⟩ := h
  exact ⟨as ++ [a], run_append_ok.2 ⟨s, hrun, run_singleton_ok.2 hs⟩⟩

/-- The queue goes the ways it goes without the counter. -/
theorem SizedReachable.queue (h : SizedReachable s) : Reachable s.queue := by
  obtain ⟨as, hrun⟩ := h
  exact (run_refines SizedState.queue (I := fun _ => True) (fun _ _ _ _ hs => ⟨trivial, sizedStep_queue hs⟩)
    trivial hrun).2

/-! ## The accounts -/

/-- The producer has exchanged its message and not yet counted it. -/
def Owing (s : SizedState P M) (p : P) : Prop :=
  s.incrementing p = true ∨ ∃ m prev, s.queue.producers p = some (.link m prev)

/-- The books of the counter. -/
structure Accounts (s : SizedState P M) : Prop where
  owing : ∃ ps : Finset P, (∀ p, p ∈ ps ↔ Owing s p) ∧
    s.mqSize + s.decrements + ps.card = s.queue.exchanged.length
  apart : ∀ p, s.incrementing p = true → s.queue.producers p = none
  returned : s.queue.returned.length = s.decrements + if s.consumer = .decrement then 1 else 0
  positive : s.consumer = .popping ∨ s.consumer = .decrement → 0 < s.mqSize
  outside : s.consumer ≠ .popping → s.queue.consumer = .idle
  sizes : ∀ n ∈ s.sizes, n ≤ s.queue.exchanged.length

omit [DecidableEq P] [DecidableEq M] in
theorem accounts_new : Accounts (SizedState.new : SizedState P M) where
  owing := ⟨∅, fun p => by simp [Owing, SizedState.new, State.new], rfl⟩
  apart := fun _ h => by cases h
  returned := rfl
  positive := fun h => by simp [SizedState.new] at h
  outside := fun _ => rfl
  sizes := fun _ h => by cases h

omit [DecidableEq P] [DecidableEq M] in
theorem Accounts.mqSize_le (h : Accounts s) : s.mqSize + s.decrements ≤ s.queue.exchanged.length := by
  obtain ⟨ps, -, hsum⟩ := h.owing
  omega

theorem Accounts.start (h : Accounts s) {p : P} {m : M} (hs : sizedStep s (.start p m) = .ok s') :
    Accounts s' := by
  obtain ⟨hinc, queue, hq, rfl⟩ := sizedStep_start_ok.1 hs
  obtain ⟨hp, -, rfl⟩ := step_start_ok.1 hq
  obtain ⟨ps, hps, hsum⟩ := h.owing
  refine ⟨⟨ps, fun q => ?_, hsum⟩, fun q hq' => ?_, h.returned, h.positive, h.outside, h.sizes⟩
  · rw [hps q]
    by_cases hqp : q = p
    · subst hqp
      simp [Owing, hp]
    · simp [Owing, hqp]
  · have hqp : q ≠ p := by
      rintro rfl
      rw [hinc] at hq'
      cases hq'
    change Function.update s.queue.producers p _ q = none
    rw [Function.update_of_ne hqp]
    exact h.apart q hq'

/-- The producer owes an increment from now on. -/
theorem Accounts.exchange (h : Accounts s) {p : P} (hs : sizedStep s (.exchange p) = .ok s') :
    Accounts s' := by
  obtain ⟨queue, hq, rfl⟩ := sizedStep_exchange_ok.1 hs
  obtain ⟨m, hp, rfl⟩ := step_exchange_ok.1 hq
  obtain ⟨ps, hps, hsum⟩ := h.owing
  have hinc : s.incrementing p ≠ true := by
    intro hi
    rw [h.apart p hi] at hp
    cases hp
  have hnot : p ∉ ps := by
    rw [hps p]
    simp [Owing, hinc, hp]
  refine ⟨⟨insert p ps, fun q => ?_, ?_⟩, fun q hq' => ?_, h.returned, h.positive, h.outside, fun n hn => ?_⟩
  · rw [Finset.mem_insert, hps q]
    by_cases hqp : q = p
    · subst hqp
      simp [Owing]
    · simp [Owing, hqp]
  · rw [Finset.card_insert_of_notMem hnot]
    simp only [List.length_append, List.length_singleton]
    omega
  · have hqp : q ≠ p := by
      intro heq
      exact hinc (heq ▸ hq')
    change Function.update s.queue.producers p _ q = none
    rw [Function.update_of_ne hqp]
    exact h.apart q hq'
  · have := h.sizes n hn
    simp only [List.length_append, List.length_singleton]
    omega

theorem Accounts.link (h : Accounts s) {p : P} (hs : sizedStep s (.link p) = .ok s') :
    Accounts s' := by
  obtain ⟨queue, hq, rfl⟩ := sizedStep_link_ok.1 hs
  obtain ⟨m, prev, hp, rfl⟩ := step_link_ok.1 hq
  obtain ⟨ps, hps, hsum⟩ := h.owing
  refine ⟨⟨ps, fun q => ?_, hsum⟩, fun q hq' => ?_, h.returned, h.positive, h.outside, h.sizes⟩
  · rw [hps q]
    by_cases hqp : q = p
    · subst hqp
      simp [Owing, hp]
    · simp [Owing, hqp]
  · change Function.update s.queue.producers p none q = none
    change Function.update s.incrementing p true q = true at hq'
    by_cases hqp : q = p
    · rw [hqp, Function.update_self]
    · rw [Function.update_of_ne hqp] at hq' ⊢
      exact h.apart q hq'

/-- The producer pays. -/
theorem Accounts.increment (h : Accounts s) {p : P} (hs : sizedStep s (.increment p) = .ok s') :
    Accounts s' := by
  obtain ⟨hinc, rfl⟩ := sizedStep_increment_ok.1 hs
  obtain ⟨ps, hps, hsum⟩ := h.owing
  have hmem : p ∈ ps := (hps p).2 (.inl hinc)
  have hp := h.apart p hinc
  refine ⟨⟨ps.erase p, fun q => ?_, ?_⟩, fun q hq' => ?_, h.returned, fun _ => Nat.succ_pos _, h.outside,
    h.sizes⟩
  · rw [Finset.mem_erase, hps q]
    by_cases hqp : q = p
    · subst hqp
      simp [Owing, hp]
    · simp [Owing, hqp]
  · have hpos := Finset.card_pos.2 ⟨p, hmem⟩
    rw [Finset.card_erase_of_mem hmem]
    simp only
    omega
  · change Function.update s.incrementing p false q = true at hq'
    by_cases hqp : q = p
    · rw [hqp, Function.update_self] at hq'
      cases hq'
    · rw [Function.update_of_ne hqp] at hq'
      exact h.apart q hq'

omit [DecidableEq P] in
/-- What an access of `pop` makes of the consumer. -/
theorem afterPop_cases (queue : State P M) :
    (SizedState.afterPop queue.pop = .popping ∧ queue.pop.consumer ≠ .idle ∧
        queue.pop.results = queue.results) ∨
      (SizedState.afterPop queue.pop = .idle ∧ queue.pop.consumer = .idle ∧
        queue.pop.results = queue.results ++ [none]) ∨
      ∃ node, SizedState.afterPop queue.pop = .decrement ∧ queue.pop.consumer = .idle ∧
        queue.pop.results = queue.results ++ [some node] := by
  rcases pop_outcome (s := queue) with ⟨hc, hres⟩ | ⟨hc, result, hres⟩
  · refine .inl ⟨?_, hc, hres⟩
    unfold SizedState.afterPop
    split
    · contradiction
    · contradiction
    · rfl
  · cases result with
    | none => exact .inr (.inl ⟨by simp [SizedState.afterPop, hc, hres], hc, hres⟩)
    | some node => exact .inr (.inr ⟨node, by simp [SizedState.afterPop, hc, hres], hc, hres⟩)

omit [DecidableEq P] in
theorem Accounts.consume (h : Accounts s) : Accounts s.consume := by
  obtain ⟨ps, hps, hsum⟩ := h.owing
  have hreturned := h.returned
  cases hc : s.consumer with
  | idle =>
    rw [hc] at hreturned
    by_cases hsize : s.mqSize = 0
    · rw [SizedState.consume_of_empty hc hsize]
      exact h
    · rw [SizedState.consume_of_nonempty hc hsize]
      refine ⟨⟨ps, hps, hsum⟩, h.apart, hreturned, fun _ => ?_, fun hne => absurd rfl hne, h.sizes⟩
      exact Nat.pos_of_ne_zero hsize
  | popping =>
    have hpos := h.positive (.inl hc)
    rw [hc] at hreturned
    rw [SizedState.consume_popping hc]
    refine ⟨⟨ps, fun q => ?_, ?_⟩, fun q hq => ?_, ?_, fun _ => hpos, fun hne => ?_, fun n hn => ?_⟩
    · rw [hps q, Owing, Owing, pop_producers]
    · rw [pop_exchanged]
      exact hsum
    · rw [pop_producers]
      exact h.apart q hq
    · rcases afterPop_cases s.queue with ⟨ha, -, hres⟩ | ⟨ha, -, hres⟩ | ⟨node, ha, -, hres⟩
      · simpa [State.returned, ha, hres] using hreturned
      · simpa [State.returned, ha, hres] using hreturned
      · simpa [State.returned, ha, hres] using hreturned
    · rcases afterPop_cases s.queue with ⟨ha, -⟩ | ⟨-, hidle, -⟩ | ⟨-, -, hidle, -⟩
      · exact absurd ha hne
      · exact hidle
      · exact hidle
    · rw [pop_exchanged]
      exact h.sizes n hn
  | decrement =>
    have hpos := h.positive (.inr hc)
    have hout := h.outside (by rw [hc]; simp)
    rw [hc] at hreturned
    rw [SizedState.consume_decrement hc, sizeDecrement, if_neg (Nat.pos_iff_ne_zero.1 hpos)]
    refine ⟨⟨ps, hps, ?_⟩, h.apart, hreturned, fun hne => ?_, fun _ => hout, h.sizes⟩
    · simp only
      omega
    · simp at hne
  | readSize =>
    have hout := h.outside (by rw [hc]; simp)
    rw [hc] at hreturned
    rw [SizedState.consume_readSize hc]
    refine ⟨⟨ps, hps, hsum⟩, h.apart, hreturned, fun hne => ?_, fun _ => hout, fun n hn => ?_⟩
    · simp at hne
    · rcases List.mem_append.1 hn with hn | hn
      · exact h.sizes n hn
      · rw [List.mem_singleton.1 hn]
        simp only
        omega

theorem step_accounts (h : Accounts s) {a : SizedAction P M} (hs : sizedStep s a = .ok s') :
    Accounts s' := by
  cases a with
  | start p m => exact h.start hs
  | exchange p => exact h.exchange hs
  | link p => exact h.link hs
  | increment p => exact h.increment hs
  | consume =>
    obtain rfl := Except.ok.inj hs
    exact h.consume

theorem SizedReachable.accounts (h : SizedReachable s) : Accounts s := by
  obtain ⟨as, hrun⟩ := h
  exact run_inv (I := fun _ s => Accounts s) (fun _ _ _ _ hI hs => step_accounts hI hs) accounts_new hrun

/-! ## At rest -/

/-- No push and no pop is in progress. -/
structure AtRest (s : SizedState P M) : Prop where
  producers : ∀ p, s.queue.producers p = none
  incrementing : ∀ p, s.incrementing p = false
  consumer : s.consumer = .idle

omit [DecidableEq P] [DecidableEq M] in
theorem Accounts.exact (h : Accounts s) (hrest : AtRest s) :
    s.queue.returned.length + s.mqSize = s.queue.exchanged.length := by
  obtain ⟨ps, hps, hsum⟩ := h.owing
  have hreturned := h.returned
  have hnone : ps = ∅ := by
    refine Finset.eq_empty_of_forall_notMem fun p hp => ?_
    rcases (hps p).1 hp with hi | ⟨m, prev, hl⟩
    · rw [hrest.incrementing p] at hi
      cases hi
    · rw [hrest.producers p] at hl
      cases hl
  rw [hrest.consumer] at hreturned
  rw [hnone, Finset.card_empty] at hsum
  simp only [reduceCtorEq, if_false, Nat.add_zero] at hreturned hsum
  omega

/-- The messages that are still in the queue. -/
theorem SizedReachable.left (h : SizedReachable s) (hrest : AtRest s) :
    ∃ left, s.queue.exchanged.map .msg = s.queue.returned ++ left ∧ left.length = s.mqSize := by
  obtain ⟨left, hleft⟩ := (queue_refines_fifo h.queue).2.1
  have hlen := congrArg List.length hleft
  have hexact := h.accounts.exact hrest
  rw [List.length_append, List.length_map] at hlen
  exact ⟨left, hleft.symm, by omega⟩

/-- An access of the consumer. -/
def SizedAction.isConsume : SizedAction P M → Bool
  | .consume => true
  | _ => false

/-- An exchange of `m_head_node` by a producer. -/
def SizedAction.isExchange : SizedAction P M → Bool
  | .exchange _ => true
  | _ => false

/-- How many accesses the consumer still makes at most before it has a
message. -/
def SizedState.remaining (s : SizedState P M) : Nat :=
  match s.consumer with
  | .idle => 8
  | _ => s.queue.consumer.remaining

/-- The consumer is on its way to a message, or about to set out. -/
structure Obtaining (s : SizedState P M) : Prop where
  approaching : Approaching s.queue
  consumer : (s.consumer = .idle ∧ s.queue.consumer = .idle ∧ s.mqSize ≠ 0) ∨ s.consumer = .popping

/-- A producer's step that is not an exchange: it leaves the consumer where it
is, or is not enabled. -/
theorem Obtaining.queueStep (h : Obtaining s) {a : Action P M} {queue : State P M}
    (incrementing : P → Bool) (hq : step s.queue a = .ok queue) (ha : a.isExchange = false)
    (hidle : queue.consumer = s.queue.consumer) (hres : queue.results = s.queue.results) :
    Obtaining { s with queue := queue, incrementing := incrementing } ∧
      { s with queue := queue, incrementing := incrementing : SizedState P M }.remaining ≤ s.remaining := by
  rcases approaching_step h.approaching hq ha with ⟨happ, -, -⟩ | ⟨m, hm⟩
  · refine ⟨⟨happ, ?_⟩, ?_⟩
    · rw [hidle]
      exact h.consumer
    · unfold SizedState.remaining
      rw [hidle]
  · rw [hres] at hm
    have := congrArg List.length hm
    simp at this

/-- One step that exchanges nothing. -/
theorem obtaining_step (h : Obtaining s) {a : SizedAction P M} (hs : sizedStep s a = .ok s')
    (ha : a.isExchange = false) :
    (Obtaining s' ∧ s'.remaining + a.isConsume.toNat ≤ s.remaining ∧
      s'.queue.results = s.queue.results) ∨
        ∃ m, s'.queue.results = s.queue.results ++ [some (.msg m)] := by
  cases a with
  | start p m =>
    obtain ⟨-, queue, hq, rfl⟩ := sizedStep_start_ok.1 hs
    obtain ⟨-, -, hqueue⟩ := step_start_ok.1 hq
    have hstep := h.queueStep s.incrementing hq rfl (by rw [hqueue]) (by rw [hqueue])
    exact .inl ⟨hstep.1, hstep.2, by rw [hqueue]⟩
  | exchange p => cases ha
  | link p =>
    obtain ⟨queue, hq, rfl⟩ := sizedStep_link_ok.1 hs
    obtain ⟨m, prev, -, hqueue⟩ := step_link_ok.1 hq
    have hstep := h.queueStep (Function.update s.incrementing p true) hq rfl
      (by rw [hqueue]) (by rw [hqueue])
    exact .inl ⟨hstep.1, hstep.2, by rw [hqueue]⟩
  | increment p =>
    obtain ⟨-, rfl⟩ := sizedStep_increment_ok.1 hs
    refine .inl ⟨⟨h.approaching, ?_⟩, le_rfl, rfl⟩
    exact h.consumer.imp_left fun ⟨hc, hidle, _⟩ => ⟨hc, hidle, Nat.succ_ne_zero _⟩
  | consume =>
    obtain rfl := Except.ok.inj hs
    rcases h.consumer with ⟨hc, hidle, hsize⟩ | hc
    · rw [SizedState.consume_of_nonempty hc hsize]
      refine .inl ⟨⟨h.approaching, .inr rfl⟩, ?_, rfl⟩
      simp only [SizedState.remaining, hc, hidle]
      exact le_rfl
    · rw [SizedState.consume_popping hc]
      rcases approaching_step h.approaching (a := .pop) rfl rfl with ⟨happ, hrem, hres⟩ | hm
      · rcases afterPop_cases s.queue with ⟨hafter, -, -⟩ | ⟨-, -, hres'⟩ | ⟨node, -, -, hres'⟩
        · refine .inl ⟨⟨happ, .inr hafter⟩, ?_, hres⟩
          simp only [SizedState.remaining, hc, hafter]
          exact hrem
        · rw [hres'] at hres
          simp at hres
        · rw [hres'] at hres
          simp at hres
      · exact .inr hm

/-- Nothing that was returned is taken back. -/
theorem sizedStep_results {a : SizedAction P M} (hs : sizedStep s a = .ok s') :
    s.queue.results <+: s'.queue.results := by
  obtain ⟨as, hrun⟩ := sizedStep_queue hs
  exact run_inv (I := fun _ t => s.queue.results <+: t.results)
    (fun _ _ _ _ hI hstep => hI.trans (step_results hstep)) List.prefix_rfl hrun

/-- A run that exchanges nothing: the consumer is still on its way, its
accesses counted, or the first thing returned is a message. -/
theorem obtaining_run {as : List (SizedAction P M)} (h : Obtaining s) (hrun : run sizedStep s as = .ok s')
    (has : ∀ a ∈ as, a.isExchange = false) :
    (Obtaining s' ∧ s'.remaining + as.countP SizedAction.isConsume ≤ s.remaining ∧
      s'.queue.results = s.queue.results) ∨
        ∃ m, s.queue.results ++ [some (.msg m)] <+: s'.queue.results := by
  have hstep : ∀ (s : SizedState P M) a s', Obtaining s → a.isExchange = false → sizedStep s a = .ok s' →
      (Obtaining s' ∧ s'.remaining + a.isConsume.toNat ≤ s.remaining ∧
        s'.queue.results = s.queue.results) ∨ ∃ m, s'.queue.results = s.queue.results ++ [some (.msg m)] :=
    fun _ _ _ hobt ha hs => obtaining_step hobt hs ha
  exact run_approaches hstep (fun _ _ _ hs => sizedStep_results hs) h has hrun

/-- **The size counter is safe, and exact at rest.** In every interleaving it is
decremented only when it is not zero, so that no wrapped value is fed to
`stats::size`, and it never exceeds the messages exchanged whose decrement has
not run. Where no push and no pop is in progress it is the number of messages
left; if it is not zero, the next `pop` returns a message, after eight accesses
of the consumer at most, unless a producer exchanges a node before that. -/
theorem size_counter_exact (h : SizedReachable s) :
    (s.consumer = .decrement → 0 < s.mqSize) ∧
    (∀ n ∈ s.sizes, n ≤ s.queue.exchanged.length) ∧
    s.mqSize + s.decrements ≤ s.queue.exchanged.length ∧
    (AtRest s →
      (∃ left, s.queue.exchanged.map .msg = s.queue.returned ++ left ∧ left.length = s.mqSize) ∧
      (s.mqSize ≠ 0 → ∀ as s', run sizedStep s as = .ok s' → (∀ a ∈ as, a.isExchange = false) →
        (s'.queue.results = s.queue.results ∧ as.countP SizedAction.isConsume < 8) ∨
          ∃ m, s.queue.results ++ [some (.msg m)] <+: s'.queue.results)) := by
  have hacc := h.accounts
  refine ⟨fun hc => hacc.positive (.inr hc), hacc.sizes, hacc.mqSize_le, fun hrest => ⟨h.left hrest, ?_⟩⟩
  intro hsize as s' hrun has
  have hidle := hacc.outside (by rw [hrest.consumer]; simp)
  obtain ⟨nodes, hinv⟩ := (reachable_refines h.queue).1
  have hu : Unlinked s.queue := fun p m prev hl => by simp [hrest.producers p] at hl
  have hexact := hacc.exact hrest
  have happ : Approaching s.queue := ⟨⟨nodes, hinv⟩, hu, hinv.going hu hidle (by omega)⟩
  rcases obtaining_run ⟨happ, .inl ⟨hrest.consumer, hidle, hsize⟩⟩ hrun has with ⟨-, hrem, hres⟩ | hm
  · refine .inl ⟨hres, ?_⟩
    have hpos : 0 < s'.remaining := by
      unfold SizedState.remaining
      split
      · omega
      · exact remaining_pos _
    have height : s.remaining = 8 := by rw [SizedState.remaining, hrest.consumer]
    omega
  · exact .inr hm

/-- A message is popped before it is counted; then the other one is left, and
counted. -/
theorem size_counter_exact_sample :
    ∃ s : SizedState Bool Nat,
      run sizedStep SizedState.new [.start true 1, .start false 2, .exchange true, .exchange false,
        .link false, .link true, .increment false, .consume, .consume, .consume, .consume, .consume,
        .increment true] = .ok s ∧
      s.sizes = [0] ∧ s.mqSize = 1 ∧
      ∃ left, s.queue.exchanged.map .msg = s.queue.returned ++ left ∧ left.length = s.mqSize := by
  obtain ⟨s, hs, hsizes, hsize, hp, hinc, hc⟩ : ∃ s : SizedState Bool Nat,
      run sizedStep SizedState.new [.start true 1, .start false 2, .exchange true, .exchange false,
        .link false, .link true, .increment false, .consume, .consume, .consume, .consume, .consume,
        .increment true] = .ok s ∧
      s.sizes = [0] ∧ s.mqSize = 1 ∧ (∀ p, s.queue.producers p = none) ∧
      (∀ p, s.incrementing p = false) ∧ s.consumer = .idle :=
    ⟨_, rfl, rfl, rfl, by decide, by decide, rfl⟩
  exact ⟨s, hs, hsizes, hsize, ((size_counter_exact ⟨_, hs⟩).2.2.2 ⟨hp, hinc, hc⟩).1⟩

/-- The counter is 1 at rest, but while `pop` runs a producer exchanges its
node: `pop` returns null. -/
theorem counted_pop_returns_null : ∃ (s s' : SizedState Bool Nat) (as : List (SizedAction Bool Nat)),
    SizedReachable s ∧ AtRest s ∧ s.mqSize = 1 ∧ run sizedStep s as = .ok s' ∧
      s'.queue.results = s.queue.results ++ [none] := by
  refine ⟨_, _, [.consume, .consume, .consume, .start false 2, .exchange false, .consume],
    ⟨[.start true 1, .exchange true, .link true, .increment true], rfl⟩, ?_, rfl, rfl, rfl⟩
  exact ⟨by decide, by decide, rfl⟩

end Handystats.MessageQueue
