/-
A `pop` that starts while no push is in progress.

If a message is in the queue and nothing is exchanged into `m_head_node` while
that `pop` runs, it returns a message, after seven accesses at most. A node
that is exchanged meanwhile may make it return null, the queue notwithstanding:
it finds `m_head_node` moved and the link to the new node not stored yet.

`Going` is what keeps each access of `pop` away from `return nullptr`.
-/
import Handystats.MessageQueueFifo

namespace Handystats.MessageQueue

open Runs LinkedChain

variable {P M : Type} {s s' : State P M} {nodes : List (Node M)}

/-- No producer stands between its exchange and its store. -/
def Unlinked (s : State P M) : Prop := ∀ p m prev, s.producers p ≠ some (.link m prev)

/-- `pop` is on its way to a node. -/
def Going (s : State P M) : Prop :=
  match s.consumer with
  | .idle => s.tailNode = .stub → s.next s.tailNode ≠ none
  | .loadNext _ => True
  | .loadHead tail | .stubNull tail | .stubExchange tail => s.headNode = tail
  | .stubLink tail prev => prev = tail
  | .reload tail => s.next tail ≠ none

/-- How many accesses `pop` still makes at most. -/
def PopState.remaining : PopState M → Nat
  | .idle => 7
  | .loadNext _ => 6
  | .loadHead _ => 5
  | .stubNull _ => 4
  | .stubExchange _ => 3
  | .stubLink _ _ => 2
  | .reload _ => 1

theorem remaining_pos (c : PopState M) : 0 < c.remaining := by
  cases c <;> exact Nat.succ_pos _

/-- An access of `pop`. -/
def Action.isPop : Action P M → Bool
  | .pop => true
  | _ => false

/-- An exchange of `m_head_node` by a producer. -/
def Action.isExchange : Action P M → Bool
  | .exchange _ => true
  | _ => false

variable [DecidableEq M]

/-- Where no link is pending, a first node without successor is the last. -/
theorem Inv.head_eq_tail (h : Inv s nodes) (hu : Unlinked s) (hs : NotLinking s.consumer)
    (hnull : s.next s.tailNode = none) : s.headNode = s.tailNode := by
  have hpend : ∀ y, ¬ Pending s.producers s.consumer s.tailNode y := by
    rintro y (⟨p, m, hp, -⟩ | ⟨tail, hc, -⟩)
    · exact hu p m _ hp
    · exact hs tail _ hc
  have hlast := h.chain.last_eq
  rw [h.chain.eq_single hpend hnull, List.getLast?_singleton, Option.some.injEq] at hlast
  exact hlast.symm

/-- With a message in the queue, `pop` starts on its way to a node. -/
theorem Inv.going (h : Inv s nodes) (hu : Unlinked s) (hc : s.consumer = .idle)
    (hlen : s.returned.length < s.exchanged.length) : Going s := by
  unfold Going
  rw [hc]
  intro hstub hnull
  have hpend : ∀ y, ¬ Pending s.producers s.consumer s.tailNode y := by
    rintro y (⟨p, m, hp, -⟩ | ⟨tail, hl, -⟩)
    · exact hu p m _ hp
    · rw [hc] at hl
      cases hl
  have hcontents := congrArg List.length h.contents
  rw [h.chain.eq_single hpend hnull, hstub] at hcontents
  simp at hcontents
  omega

omit [DecidableEq M] in
theorem results_popTakes {tail : Node M} (hne : tail ≠ .stub) (next : Node M) :
    ∃ m, (s.popTakes tail next).results = s.results ++ [some (.msg m)] := by
  cases tail with
  | stub => exact absurd rfl hne
  | msg m => exact ⟨m, rfl⟩

theorem pop_producers : s.pop.producers = s.producers := by
  unfold State.pop
  split
  · simp only
    split <;> rfl
  · split <;> rfl
  · split <;> rfl
  · rfl
  · rfl
  · rfl
  · split <;> rfl

theorem pop_results : s.results <+: s.pop.results := by
  unfold State.pop
  split
  · simp only
    split <;> simp [State.popReturns, State.popTakes]
  · split <;> simp [State.popReturns, State.popTakes]
  · split <;> simp [State.popReturns]
  · exact List.prefix_rfl
  · exact List.prefix_rfl
  · exact List.prefix_rfl
  · split <;> simp [State.popReturns, State.popTakes]

theorem pop_exchanged : s.pop.exchanged = s.exchanged := by
  unfold State.pop
  split
  · simp only
    split <;> rfl
  · split <;> rfl
  · split <;> rfl
  · rfl
  · rfl
  · rfl
  · split <;> rfl

/-- An access of `pop` is its last, with one more result, or not. -/
theorem pop_outcome : (s.pop.consumer ≠ .idle ∧ s.pop.results = s.results) ∨
    (s.pop.consumer = .idle ∧ ∃ result, s.pop.results = s.results ++ [result]) := by
  unfold State.pop
  split
  · simp only
    split <;> simp [State.popReturns, State.popTakes]
  · split <;> simp [State.popReturns, State.popTakes]
  · split <;> simp [State.popReturns]
  · simp
  · simp
  · simp
  · split <;> simp [State.popReturns, State.popTakes]

/-- One access: `pop` stays on its way and has fewer before it, or returns a
message. -/
theorem pop_going (h : Inv s nodes) (hu : Unlinked s) (hg : Going s) :
    (Going s.pop ∧ s.pop.consumer.remaining < s.consumer.remaining ∧ s.pop.results = s.results) ∨
      ∃ m, s.pop.results = s.results ++ [some (.msg m)] := by
  have hw := h.consumer
  unfold AtWork at hw
  unfold Going at hg
  cases hc : s.consumer with
  | idle =>
    have hs : NotLinking s.consumer := fun _ _ => by simp [hc]
    rw [hc] at hg
    simp only [State.pop, hc]
    split
    next htail hnull => exact absurd (htail ▸ hnull) (hg htail)
    next y htail hnext => exact .inl ⟨trivial, Nat.lt_succ_self 6, rfl⟩
    next m y htail hnext => exact .inr (results_popTakes (by rw [htail]; simp) y)
    next m htail hnull =>
      refine .inl ⟨h.head_eq_tail hu hs (htail ▸ hnull), ?_, rfl⟩
      change 5 < 7
      omega
  | loadNext tail =>
    have hs : NotLinking s.consumer := fun _ _ => by simp [hc]
    rw [hc] at hw
    obtain ⟨rfl, hne⟩ := hw
    simp only [State.pop, hc]
    split
    next y hnext => exact .inr (results_popTakes hne y)
    next hnull => exact .inl ⟨h.head_eq_tail hu hs hnull, Nat.lt_succ_self 5, rfl⟩
  | loadHead tail =>
    rw [hc] at hg
    simp only [State.pop, hc]
    rw [if_neg (not_not.2 hg.symm)]
    exact .inl ⟨hg, Nat.lt_succ_self 4, rfl⟩
  | stubNull tail =>
    rw [hc] at hg
    simp only [State.pop, hc]
    exact .inl ⟨hg, Nat.lt_succ_self 3, trivial⟩
  | stubExchange tail =>
    rw [hc] at hg
    simp only [State.pop, hc]
    exact .inl ⟨hg, Nat.lt_succ_self 2, trivial⟩
  | stubLink tail prev =>
    rw [hc] at hg
    simp only at hg
    subst hg
    simp only [State.pop, hc]
    refine .inl ⟨?_, Nat.lt_succ_self 1, trivial⟩
    simp [Going]
  | reload tail =>
    rw [hc] at hw hg
    simp only [State.pop, hc]
    split
    next y hnext => exact .inr (results_popTakes hw.2 y)
    next hnull => exact absurd hnull hg

variable [DecidableEq P]

/-- A push that starts does not stop it. -/
theorem Inv.start_going (h : Inv s nodes) {p : P} {m : M} (hm : m ∉ s.started) (hg : Going s) :
    Going { s with
      next := Function.update s.next (.msg m) none
      producers := Function.update s.producers p (some (.exchange m))
      started := s.started ++ [m] } := by
  have htail : s.tailNode ≠ .msg m := by
    intro htail
    exact hm (h.producers.exchanged_started m (h.mem_exchanged (htail ▸ h.chain.first_mem)))
  have hw := h.consumer
  unfold AtWork at hw
  unfold Going at hg ⊢
  cases hc : s.consumer with
  | idle =>
    rw [hc] at hg
    change s.tailNode = .stub → Function.update s.next (.msg m) none s.tailNode ≠ none
    rw [Function.update_of_ne htail]
    exact hg
  | reload tail =>
    rw [hc] at hg hw
    obtain ⟨rfl, -⟩ := hw
    change Function.update s.next (.msg m) none s.tailNode ≠ none
    rw [Function.update_of_ne htail]
    exact hg
  | _ =>
    rw [hc] at hg
    exact hg

/-- `pop` is on its way to a node, and no producer is in its way. -/
structure Approaching (s : State P M) : Prop where
  inv : ∃ nodes, Inv s nodes
  unlinked : Unlinked s
  going : Going s

/-- One step that exchanges nothing. -/
theorem approaching_step {a : Action P M} (h : Approaching s) (hs : step s a = .ok s')
    (ha : a.isExchange = false) :
    (Approaching s' ∧ s'.consumer.remaining + a.isPop.toNat ≤ s.consumer.remaining ∧
      s'.results = s.results) ∨ ∃ m, s'.results = s.results ++ [some (.msg m)] := by
  have hinv' := (step_refines h.inv hs).1
  obtain ⟨⟨nodes, hinv⟩, hu, hg⟩ := h
  cases a with
  | start p m =>
    obtain ⟨-, hm, rfl⟩ := step_start_ok.1 hs
    refine .inl ⟨⟨hinv', fun q m' prev hq => ?_, hinv.start_going hm hg⟩, le_rfl, rfl⟩
    rcases update_eq_some.1 hq with ⟨-, ⟨⟩⟩ | ⟨-, hq⟩
    exact hu q m' prev hq
  | exchange p => cases ha
  | link p =>
    obtain ⟨m, prev, hp, -⟩ := step_link_ok.1 hs
    exact absurd hp (hu p m prev)
  | pop =>
    cases hs
    rcases pop_going hinv hu hg with ⟨hg', hrem, hres⟩ | hm
    · refine .inl ⟨⟨hinv', ?_, hg'⟩, hrem, hres⟩
      rw [Unlinked, pop_producers]
      exact hu
    · exact .inr hm

/-- Nothing that was returned is taken back. -/
theorem step_results {a : Action P M} (hs : step s a = .ok s') : s.results <+: s'.results := by
  cases a with
  | start p m =>
    obtain ⟨-, -, rfl⟩ := step_start_ok.1 hs
    exact List.prefix_rfl
  | exchange p =>
    obtain ⟨m, -, rfl⟩ := step_exchange_ok.1 hs
    exact List.prefix_rfl
  | link p =>
    obtain ⟨m, prev, -, rfl⟩ := step_link_ok.1 hs
    exact List.prefix_rfl
  | pop =>
    cases hs
    exact pop_results

/-- A run that exchanges nothing: `pop` is still on its way, its accesses
counted, or the first thing returned is a message. -/
theorem approaching_run {as : List (Action P M)} (h : Approaching s) (hrun : run step s as = .ok s')
    (has : ∀ a ∈ as, a.isExchange = false) :
    (Approaching s' ∧ s'.consumer.remaining + as.countP Action.isPop ≤ s.consumer.remaining ∧
      s'.results = s.results) ∨ ∃ m, s.results ++ [some (.msg m)] <+: s'.results := by
  have hstep : ∀ (s : State P M) a s', Approaching s → a.isExchange = false → step s a = .ok s' →
      (Approaching s' ∧ s'.consumer.remaining + a.isPop.toNat ≤ s.consumer.remaining ∧
        s'.results = s.results) ∨ ∃ m, s'.results = s.results ++ [some (.msg m)] :=
    fun _ _ _ happ ha hs => approaching_step happ hs ha
  exact run_approaches hstep (fun _ _ _ hs => step_results hs) h has hrun

/-- **The message queue is a FIFO queue.** Every interleaving is a run of a
queue into which messages enter as they are exchanged into `m_head_node`: what
`pop` has returned is a prefix of them, without duplicates and without the
stub. And a `pop` that starts while no push is in progress and a message is
left returns a message, after seven accesses at most, unless a producer
exchanges a node while it runs. -/
theorem queue_refines_fifo (h : Reachable s) :
    (∃ ops, run Fifo.step Fifo.new ops = .ok s.fifo) ∧
      s.returned <+: s.exchanged.map .msg ∧ s.returned.Nodup ∧ .stub ∉ s.returned ∧
      ((∀ p, s.producers p = none) → s.consumer = .idle → s.returned.length < s.exchanged.length →
        ∀ as s', run step s as = .ok s' → (∀ a ∈ as, a.isExchange = false) →
          (s'.results = s.results ∧ as.countP Action.isPop < 7) ∨
            ∃ m, s.results ++ [some (.msg m)] <+: s'.results) := by
  obtain ⟨⟨nodes, hinv⟩, ops, hops⟩ := reachable_refines h
  have hprefix : s.returned <+: s.exchanged.map .msg := Fifo.left_prefix hops
  refine ⟨⟨ops, hops⟩, hprefix, ?_, fun hstub => ?_, fun hp hc hlen as s' hrun has => ?_⟩
  · refine hprefix.sublist.nodup (hinv.producers.exchanged_nodup.map fun m m' hm => ?_)
    exact Node.msg.inj hm
  · have := hprefix.subset hstub
    simp at this
  · have hu : Unlinked s := fun p m prev hl => by simp [hp p] at hl
    have happ : Approaching s := ⟨⟨nodes, hinv⟩, hu, hinv.going hu hc hlen⟩
    rcases approaching_run happ hrun has with ⟨-, hrem, hres⟩ | hm
    · refine .inl ⟨hres, ?_⟩
      have hpos := remaining_pos s'.consumer
      rw [hc] at hrem
      change _ ≤ 7 at hrem
      omega
    · exact .inr hm

/-- Two pushes cross, and a `pop` falls between them; one message is left. -/
theorem queue_refines_fifo_sample :
    ∃ s s' : State Bool Nat,
      run step State.new [.start true 1, .start false 2, .exchange true, .pop, .exchange false,
        .link false, .link true, .pop, .pop] = .ok s ∧
      s.results = [none, some (.msg 1)] ∧
      run step s (List.replicate 7 .pop) = .ok s' ∧
        ∃ m, s.results ++ [some (.msg m)] <+: s'.results := by
  obtain ⟨s, s', hs, hp, hc, hlen, hres, hs'⟩ : ∃ s s' : State Bool Nat,
      run step State.new [.start true 1, .start false 2, .exchange true, .pop, .exchange false,
        .link false, .link true, .pop, .pop] = .ok s ∧
      (∀ p, s.producers p = none) ∧ s.consumer = .idle ∧ s.returned.length < s.exchanged.length ∧
      s.results = [none, some (.msg 1)] ∧ run step s (List.replicate 7 .pop) = .ok s' :=
    ⟨_, _, rfl, by decide, rfl, by decide, rfl, rfl⟩
  have hsample := (queue_refines_fifo ⟨_, hs⟩).2.2.2.2 hp hc hlen _ s' hs' (by decide)
  refine ⟨s, s', hs, hres, hs', hsample.resolve_left ?_⟩
  intro h
  obtain ⟨-, hlt⟩ := h
  exact absurd hlt (by decide)

/-- The queue is as `queue_refines_fifo` wants it, but while `pop` runs a producer
exchanges its node: `pop` returns null. -/
theorem pop_returns_null : ∃ (s s' : State Bool Nat) (as : List (Action Bool Nat)),
    Reachable s ∧ (∀ p, s.producers p = none) ∧ s.consumer = .idle ∧
      s.returned.length < s.exchanged.length ∧ run step s as = .ok s' ∧
        s'.results = s.results ++ [none] := by
  refine ⟨_, _, [.pop, .pop, .start false 2, .exchange false, .pop],
    ⟨[.start true 1, .exchange true, .link true], rfl⟩, ?_, rfl, ?_, rfl, rfl⟩
  · decide
  · decide

end Handystats.MessageQueue
