/-
The message queue refines a FIFO queue.

`Inv` is the invariant of every interleaving: from `m_tail_node` to
`m_head_node` there is a chain of nodes, cut only where a pusher, the
consumer with the stub included, stands between its exchange and its store;
its messages are those exchanged and not yet returned, in order.
`step_refines` says what each access is to the abstract queue: an exchange
enters, a `pop` that returns a node leaves, every other access is nothing.
-/
import Handystats.MessageQueue

namespace Handystats.MessageQueue

open Runs LinkedChain

variable {P M : Type} {s s' : State P M} {nodes : List (Node M)}

/-- The message a producer pushes. -/
def PushState.message : PushState M → M
  | .exchange m => m
  | .link m _ => m

/-- Some pusher has exchanged `y` and not yet stored it in `x`'s `next`. -/
def Pending (producers : P → Option (PushState M)) (consumer : PopState M) (x y : Node M) : Prop :=
  (∃ p m, producers p = some (.link m x) ∧ y = .msg m) ∨
    (∃ tail, consumer = .stubLink tail x ∧ y = .stub)

/-- A message has one producer at most. -/
def Owned (producers : P → Option (PushState M)) : Prop :=
  ∀ p q a b, producers p = some a → producers q = some b → a.message = b.message → p = q

/-- What is known of the producers, whatever the chain. -/
structure ProducersInv (next : Node M → Option (Node M)) (producers : P → Option (PushState M))
    (started exchanged : List M) : Prop where
  exchanged_nodup : exchanged.Nodup
  exchanged_started : ∀ m ∈ exchanged, m ∈ started
  at_work : ∀ p a, producers p = some a → a.message ∈ started
  waiting : ∀ p m, producers p = some (.exchange m) → m ∉ exchanged ∧ next (.msg m) = none
  owned : Owned producers

/-- What is known of the consumer inside `pop`: its `tail` is `m_tail_node`
and no stub; while it pushes the stub, the stub is not in the chain. -/
def AtWork (s : State P M) (nodes : List (Node M)) : Prop :=
  match s.consumer with
  | .idle => True
  | .loadNext tail | .loadHead tail | .stubLink tail _ | .reload tail =>
    tail = s.tailNode ∧ tail ≠ .stub
  | .stubNull tail => tail = s.tailNode ∧ tail ≠ .stub ∧ .stub ∉ nodes
  | .stubExchange tail => tail = s.tailNode ∧ tail ≠ .stub ∧ .stub ∉ nodes ∧ s.next .stub = none

variable [DecidableEq M]

/-- The invariant. -/
structure Inv (s : State P M) (nodes : List (Node M)) : Prop where
  chain : Chain s.next s.tailNode s.headNode (Pending s.producers s.consumer) nodes
  contents : s.exchanged.map .msg = s.returned ++ nodes.filter (· ≠ .stub)
  producers : ProducersInv s.next s.producers s.started s.exchanged
  consumer : AtWork s nodes

/-- The abstract queue: what has been exchanged and what has been returned. -/
def State.fifo (s : State P M) : Fifo.Queue (Node M) := ⟨s.exchanged.map .msg, s.returned⟩

omit [DecidableEq M] in
@[simp] theorem returned_popReturns_none : (s.popReturns none).returned = s.returned := by
  simp [State.returned, State.popReturns]

omit [DecidableEq M] in
@[simp] theorem returned_popTakes (tail next : Node M) :
    (s.popTakes tail next).returned = s.returned ++ [tail] := by
  simp [State.returned, State.popReturns, State.popTakes]

/-- The messages in the chain have been exchanged. -/
theorem Inv.mem_exchanged (h : Inv s nodes) {m : M} (hm : .msg m ∈ nodes) : m ∈ s.exchanged := by
  have : Node.msg m ∈ s.exchanged.map .msg := by
    rw [h.contents]
    exact List.mem_append_right _ (List.mem_filter.2 ⟨hm, by simp⟩)
  simpa using this

/-- A node that waits for its exchange is not in the chain. -/
theorem Inv.ne_waiting (h : Inv s nodes) {x : Node M} (hx : x ∈ nodes) {p : P} {m : M}
    (hp : s.producers p = some (.exchange m)) : .msg m ≠ x := by
  rintro rfl
  exact (h.producers.waiting p m hp).1 (h.mem_exchanged hx)

/-- A store to the `next` of a node that is in nobody's hands. -/
theorem ProducersInv.write {next : Node M → Option (Node M)} {producers : P → Option (PushState M)}
    {started exchanged : List M} (h : ProducersInv next producers started exchanged) {x : Node M}
    {v : Option (Node M)} (hx : ∀ p m, producers p = some (.exchange m) → .msg m ≠ x) :
    ProducersInv (Function.update next x v) producers started exchanged where
  __ := h
  waiting p m hp := by
    obtain ⟨hm, hnull⟩ := h.waiting p m hp
    exact ⟨hm, by rw [Function.update_of_ne (hx p m hp), hnull]⟩

theorem Inv.start_inv : Inv (State.new : State P M) [.stub] where
  chain := (Chain.single rfl).congr fun x y => by simp [Pending, State.new]
  contents := by simp [State.new, State.returned]
  producers := ⟨by simp [State.new], by simp [State.new], by simp [State.new], by simp [State.new],
    by simp [State.new, Owned]⟩
  consumer := trivial

/-! ## The consumer's accesses -/

/-- The consumer is not in the middle of pushing the stub. -/
def NotLinking (c : PopState M) : Prop := ∀ tail prev, c ≠ .stubLink tail prev

/-- An access that moves the consumer on and nothing else. -/
theorem Inv.moveOn (h : Inv s nodes) {c : PopState M} (results : List (Option (Node M)))
    (hs : NotLinking s.consumer) (hc : NotLinking c) (hr : results.filterMap id = s.returned)
    (hw : AtWork { s with consumer := c, results := results } nodes) :
    Inv { s with consumer := c, results := results } nodes where
  chain := h.chain.congr fun x y => by
    refine or_congr Iff.rfl ⟨?_, ?_⟩
    · intro h
      obtain ⟨tail, ht, -⟩ := h
      exact absurd ht (hs tail x)
    · intro h
      obtain ⟨tail, ht, -⟩ := h
      exact absurd ht (hc tail x)
  contents := by
    change _ = results.filterMap id ++ _
    rw [hr]
    exact h.contents
  producers := h.producers
  consumer := hw

/-- `m_tail_node = next`. -/
theorem Inv.advance (h : Inv s nodes) {c : PopState M} {next : Node M}
    {results : List (Option (Node M))} (hs : NotLinking s.consumer) (hc : NotLinking c)
    (hnext : s.next s.tailNode = some next)
    (hr : results.filterMap id = s.returned ++ [s.tailNode].filter (· ≠ .stub))
    (hw : ∀ rest, nodes = s.tailNode :: next :: rest →
      AtWork { s with tailNode := next, consumer := c, results := results } (next :: rest)) :
    ∃ nodes', Inv { s with tailNode := next, consumer := c, results := results } nodes' := by
  obtain ⟨rest, hnodes, hchain⟩ := h.chain.advance hnext
  refine ⟨next :: rest, hchain.congr fun x y => ?_, ?_, ?_, hw rest hnodes⟩
  · refine or_congr Iff.rfl ⟨?_, ?_⟩
    · intro h
      obtain ⟨tail, ht, -⟩ := h
      exact absurd ht (hs tail x)
    · intro h
      obtain ⟨tail, ht, -⟩ := h
      exact absurd ht (hc tail x)
  · have hcontents := h.contents
    rw [hnodes] at hcontents
    change _ = results.filterMap id ++ _
    rw [hr, List.append_assoc, ← List.filter_append]
    exact hcontents
  · exact h.producers

/-- What an access is to the abstract queue. -/
def Refines (s s' : State P M) : Prop := ∃ ops, run Fifo.step s.fifo ops = .ok s'.fifo

omit [DecidableEq M] in
theorem Refines.silent (he : s'.exchanged = s.exchanged) (hr : s'.returned = s.returned) :
    Refines s s' :=
  ⟨[], by simp [State.fifo, he, hr]⟩

/-- `pop` returns the first node: in the abstract queue it leaves. -/
theorem Inv.takes (h : Inv s nodes) (hs : NotLinking s.consumer) {tail next : Node M}
    (ht : tail = s.tailNode) (hne : tail ≠ .stub) (hnext : s.next tail = some next) :
    (∃ nodes', Inv (s.popTakes tail next) nodes') ∧ Refines s (s.popTakes tail next) := by
  subst ht
  refine ⟨h.advance hs (fun _ _ => by simp) hnext ?_ fun _ _ => trivial, ?_⟩
  · simp [hne, State.returned]
  · obtain ⟨rest, rfl, -⟩ := h.chain.advance hnext
    refine ⟨[.leave], run_singleton_ok.2 ?_⟩
    have hcontents := h.contents
    rw [List.filter_cons_of_pos (by simpa using hne)] at hcontents
    rw [State.fifo, Fifo.step_leave hcontents, State.fifo, returned_popTakes]
    rfl

/-- One access of `pop`. -/
theorem pop_refines (h : Inv s nodes) : (∃ nodes', Inv s.pop nodes') ∧ Refines s s.pop := by
  have hw := h.consumer
  unfold AtWork at hw
  cases hc : s.consumer with
  | idle =>
    have hs : NotLinking s.consumer := fun _ _ => by simp [hc]
    simp only [State.pop, hc]
    split
    next htail hnext =>
      exact ⟨⟨_, h.moveOn _ hs (fun _ _ => by simp) (by simp [State.returned]) trivial⟩,
        .silent rfl (by simp)⟩
    next y htail hnext =>
      refine ⟨h.advance hs (fun _ _ => by simp) hnext (by simp [htail, State.returned]) ?_, .silent rfl rfl⟩
      rintro rest rfl
      refine ⟨rfl, ?_⟩
      rintro rfl
      simpa [htail] using h.chain.nodup
    next m y htail hnext =>
      rw [htail] at hnext
      rw [htail]
      exact h.takes hs htail.symm (by simp) hnext
    next m htail hnext =>
      refine ⟨⟨_, h.moveOn s.results hs (fun _ _ => by simp) rfl ?_⟩, .silent rfl rfl⟩
      exact ⟨rfl, by rw [htail]; simp⟩
  | loadNext tail =>
    have hs : NotLinking s.consumer := fun _ _ => by simp [hc]
    rw [hc] at hw
    obtain ⟨htail, hne⟩ := hw
    simp only [State.pop, hc]
    split
    next y hnext => exact h.takes hs htail hne hnext
    next hnext =>
      exact ⟨⟨_, h.moveOn s.results hs (fun _ _ => by simp) rfl ⟨htail, hne⟩⟩, .silent rfl rfl⟩
  | loadHead tail =>
    have hs : NotLinking s.consumer := fun _ _ => by simp [hc]
    rw [hc] at hw
    obtain ⟨htail, hne⟩ := hw
    simp only [State.pop, hc]
    split_ifs with hhead
    · exact ⟨⟨_, h.moveOn _ hs (fun _ _ => by simp) (by simp [State.returned]) trivial⟩,
        .silent rfl (by simp)⟩
    · -- The chain is the one node, so the stub is not in it.
      rw [not_not] at hhead
      have hchain := h.chain
      rw [← hhead, ← htail] at hchain
      have hnodes := hchain.eq_single_of_eq
      refine ⟨⟨_, h.moveOn s.results hs (fun _ _ => by simp) rfl ⟨htail, hne, ?_⟩⟩,
        .silent rfl rfl⟩
      rw [hnodes, List.mem_singleton]
      exact hne.symm
  | stubNull tail =>
    rw [hc] at hw
    obtain ⟨htail, hne, hout⟩ := hw
    simp only [State.pop, hc]
    refine ⟨⟨nodes, (h.chain.write hout none).congr fun x y => ?_, h.contents, ?_, ?_⟩, .silent rfl rfl⟩
    · simp [Pending, hc]
    · exact h.producers.write fun p m hp => by simp
    · refine ⟨htail, hne, hout, ?_⟩
      change Function.update s.next .stub none .stub = none
      rw [Function.update_self]
  | stubExchange tail =>
    rw [hc] at hw
    obtain ⟨htail, hne, hout, hnull⟩ := hw
    simp only [State.pop, hc]
    refine ⟨⟨nodes ++ [.stub], h.chain.append hout hnull fun x y => ?_, ?_, ?_, htail, hne⟩, .silent rfl rfl⟩
    · simp [Pending, hc, eq_comm]
    · change _ = s.returned ++ _
      simpa [List.filter_append] using h.contents
    · exact h.producers
  | stubLink tail prev =>
    rw [hc] at hw
    obtain ⟨htail, hne⟩ := hw
    have hpend : Pending s.producers s.consumer prev .stub := .inr ⟨tail, hc, rfl⟩
    have hprev := (mem_of_neighbours (h.chain.pending _ _ hpend).1).1
    simp only [State.pop, hc]
    refine ⟨⟨nodes, h.chain.store hpend fun x y => ?_, h.contents, ?_, htail, hne⟩, .silent rfl rfl⟩
    · simp only [Pending, hc]
      constructor
      · intro h
        rcases h with ⟨p, m, hp, rfl⟩ | ⟨tail', ht, -⟩
        · exact ⟨.inl ⟨p, m, hp, rfl⟩, by simp⟩
        · cases ht
      · intro h
        obtain ⟨⟨p, m, hp, rfl⟩ | ⟨tail', ht, rfl⟩, hout⟩ := h
        · exact .inl ⟨p, m, hp, rfl⟩
        · cases ht
          exact absurd ⟨rfl, rfl⟩ hout
    · exact h.producers.write fun p m hp => h.ne_waiting hprev hp
  | reload tail =>
    have hs : NotLinking s.consumer := fun _ _ => by simp [hc]
    rw [hc] at hw
    obtain ⟨htail, hne⟩ := hw
    simp only [State.pop, hc]
    split
    next y hnext => exact h.takes hs htail hne hnext
    next hnext =>
      exact ⟨⟨_, h.moveOn _ hs (fun _ _ => by simp) (by simp [State.returned]) trivial⟩,
        .silent rfl (by simp)⟩

/-! ## The producers' accesses -/

section

variable [DecidableEq P] {next : Node M → Option (Node M)} {producers : P → Option (PushState M)}
  {started exchanged : List M} {p : P} {m : M} {prev : Node M}

omit [DecidableEq M] in
theorem update_eq_some {v : Option (PushState M)} {q : P} {a : PushState M} :
    Function.update producers p v q = some a ↔ q = p ∧ v = some a ∨ q ≠ p ∧ producers q = some a := by
  by_cases hq : q = p
  · subst hq
    simp
  · simp [hq]

omit [DecidableEq M] in
/-- A producer takes up a message that no other has. -/
theorem Owned.update (h : Owned producers) {v : Option (PushState M)}
    (hv : ∀ a, v = some a → ∀ q b, q ≠ p → producers q = some b → a.message ≠ b.message) :
    Owned (Function.update producers p v) := by
  intro q q' a b hq hq' hab
  rcases update_eq_some.1 hq with ⟨rfl, ha⟩ | ⟨hne, ha⟩
  · rcases update_eq_some.1 hq' with ⟨rfl, -⟩ | ⟨hne', hb⟩
    · rfl
    · exact absurd hab (hv a ha q' b hne' hb)
  · rcases update_eq_some.1 hq' with ⟨rfl, hb⟩ | ⟨-, hb⟩
    · exact absurd hab.symm (hv b hb q a hne ha)
    · exact h q q' a b ha hb hab

theorem ProducersInv.start (h : ProducersInv next producers started exchanged) (hm : m ∉ started) :
    ProducersInv (Function.update next (.msg m) none)
      (Function.update producers p (some (.exchange m))) (started ++ [m]) exchanged where
  exchanged_nodup := h.exchanged_nodup
  exchanged_started m' hm' := List.mem_append_left _ (h.exchanged_started m' hm')
  at_work q a hq := by
    rcases update_eq_some.1 hq with ⟨-, ⟨⟩⟩ | ⟨-, hq⟩
    · exact List.mem_append_right _ (List.mem_singleton.2 rfl)
    · exact List.mem_append_left _ (h.at_work q a hq)
  waiting q m' hq := by
    rcases update_eq_some.1 hq with ⟨-, ⟨⟩⟩ | ⟨-, hq⟩
    · exact ⟨fun hmem => hm (h.exchanged_started m hmem), Function.update_self ..⟩
    · obtain ⟨hm', hnull⟩ := h.waiting q m' hq
      refine ⟨hm', ?_⟩
      rw [Function.update_of_ne, hnull]
      intro h
      obtain ⟨rfl⟩ := h
      exact hm (h.at_work q _ hq)
  owned := h.owned.update fun a ha q b _ hq hab => by
    cases ha
    exact hm (hab.symm ▸ h.at_work q b hq : (PushState.exchange m).message ∈ started)

omit [DecidableEq M] in
theorem ProducersInv.exchange (h : ProducersInv next producers started exchanged)
    (hp : producers p = some (.exchange m)) :
    ProducersInv next (Function.update producers p (some (.link m prev))) started
      (exchanged ++ [m]) where
  exchanged_nodup :=
    List.nodup_append_comm.1 (List.nodup_cons.2 ⟨(h.waiting p m hp).1, h.exchanged_nodup⟩)
  exchanged_started m' hm' := by
    rcases List.mem_append.1 hm' with hm' | hm'
    · exact h.exchanged_started m' hm'
    · rw [List.mem_singleton.1 hm']
      exact h.at_work p _ hp
  at_work q a hq := by
    rcases update_eq_some.1 hq with ⟨-, ⟨⟩⟩ | ⟨-, hq⟩
    · exact h.at_work p (.exchange m) hp
    · exact h.at_work q a hq
  waiting q m' hq := by
    rcases update_eq_some.1 hq with ⟨-, ⟨⟩⟩ | ⟨hne, hq⟩
    obtain ⟨hm', hnull⟩ := h.waiting q m' hq
    refine ⟨fun hmem => ?_, hnull⟩
    rcases List.mem_append.1 hmem with hmem | hmem
    · exact hm' hmem
    · exact hne (h.owned q p _ _ hq hp (List.mem_singleton.1 hmem))
  owned := h.owned.update fun a ha q b hne hq hab => by
    cases ha
    exact hne (h.owned p q _ b hp hq hab).symm

omit [DecidableEq M] in
theorem ProducersInv.link (h : ProducersInv next producers started exchanged) :
    ProducersInv next (Function.update producers p none) started exchanged where
  exchanged_nodup := h.exchanged_nodup
  exchanged_started := h.exchanged_started
  at_work q a hq := by
    rcases update_eq_some.1 hq with ⟨-, ⟨⟩⟩ | ⟨-, hq⟩
    exact h.at_work q a hq
  waiting q m' hq := by
    rcases update_eq_some.1 hq with ⟨-, ⟨⟩⟩ | ⟨-, hq⟩
    exact h.waiting q m' hq
  owned := h.owned.update fun a ha => by cases ha

end

variable [DecidableEq P] {p : P} {m : M} {prev : Node M}

omit [DecidableEq M] [DecidableEq P] in
/-- The consumer's part is kept by a store to another node than the stub. -/
theorem AtWork.store (h : AtWork s nodes) {s' : State P M} {nodes' : List (Node M)}
    (hc : s'.consumer = s.consumer) (ht : s'.tailNode = s.tailNode)
    (hn : .stub ∉ nodes → .stub ∉ nodes' ∧ s'.next .stub = s.next .stub) : AtWork s' nodes' := by
  unfold AtWork at h ⊢
  rw [hc, ht]
  cases hs : s.consumer with
  | stubNull tail =>
    rw [hs] at h
    exact ⟨h.1, h.2.1, (hn h.2.2).1⟩
  | stubExchange tail =>
    rw [hs] at h
    obtain ⟨htail, hne, hout, hnull⟩ := h
    exact ⟨htail, hne, (hn hout).1, (hn hout).2.trans hnull⟩
  | _ =>
    rw [hs] at h
    exact h

/-- `n->next` is nulled: the node is outside the chain. -/
theorem Inv.start (h : Inv s nodes) (hp : s.producers p = none) (hm : m ∉ s.started) :
    Inv { s with
      next := Function.update s.next (.msg m) none
      producers := Function.update s.producers p (some (.exchange m))
      started := s.started ++ [m] } nodes where
  chain := by
    refine (h.chain.write (fun hmem => hm ?_) none).congr fun x y => or_congr_left ?_
    · exact h.producers.exchanged_started m (h.mem_exchanged hmem)
    · refine exists_congr fun q => exists_congr fun m' => and_congr_left fun _ => ?_
      rw [update_eq_some]
      constructor
      · intro hq
        refine .inr ⟨?_, hq⟩
        rintro rfl
        rw [hp] at hq
        cases hq
      · intro h
        rcases h with ⟨-, ⟨⟩⟩ | ⟨-, hq⟩
        exact hq
  contents := h.contents
  producers := h.producers.start hm
  consumer := h.consumer.store rfl rfl fun hout => ⟨hout, by
    change Function.update s.next (.msg m) none .stub = s.next .stub
    rw [Function.update_of_ne (by simp)]⟩

/-- The exchange of `m_head_node`: the node is the last of the chain. -/
theorem Inv.exchange (h : Inv s nodes) (hp : s.producers p = some (.exchange m)) :
    Inv { s with
      headNode := .msg m
      producers := Function.update s.producers p (some (.link m s.headNode))
      exchanged := s.exchanged ++ [m] } (nodes ++ [.msg m]) where
  chain := by
    obtain ⟨hm, hnull⟩ := h.producers.waiting p m hp
    refine h.chain.append (fun hmem => hm (h.mem_exchanged hmem)) hnull fun x y => ?_
    constructor
    · intro h
      rcases h with ⟨q, m', hq, rfl⟩ | hq
      · rcases update_eq_some.1 hq with ⟨-, ⟨⟩⟩ | ⟨-, hq⟩
        · exact .inr ⟨rfl, rfl⟩
        · exact .inl (.inl ⟨q, m', hq, rfl⟩)
      · exact .inl (.inr hq)
    · intro h
      rcases h with (⟨q, m', hq, rfl⟩ | hq) | ⟨rfl, rfl⟩
      · refine .inl ⟨q, m', update_eq_some.2 (.inr ⟨?_, hq⟩), rfl⟩
        rintro rfl
        rw [hp] at hq
        cases hq
      · exact .inr hq
      · exact .inl ⟨p, m, Function.update_self .., rfl⟩
  contents := by
    change (s.exchanged ++ [m]).map .msg = s.returned ++ _
    rw [List.map_append, h.contents, List.filter_append, List.append_assoc]
    simp
  producers := h.producers.exchange hp
  consumer := h.consumer.store rfl rfl fun hout => ⟨by simpa using hout, rfl⟩

/-- `prev->next = n`. -/
theorem Inv.link (h : Inv s nodes) (hp : s.producers p = some (.link m prev)) :
    Inv { s with
      next := Function.update s.next prev (some (.msg m))
      producers := Function.update s.producers p none } nodes := by
  have hpend : Pending s.producers s.consumer prev (.msg m) := .inl ⟨p, m, hp, rfl⟩
  have hprev := (mem_of_neighbours (h.chain.pending _ _ hpend).1).1
  refine ⟨h.chain.store hpend fun x y => ?_, h.contents, ?_, ?_⟩
  · constructor
    · intro h
      rcases h with ⟨q, m', hq, rfl⟩ | ⟨tail, hc, rfl⟩
      · rcases update_eq_some.1 hq with ⟨-, ⟨⟩⟩ | ⟨hne, hq⟩
        refine ⟨.inl ⟨q, m', hq, rfl⟩, ?_⟩
        intro h
        obtain ⟨-, hm⟩ := h
        exact hne (h.producers.owned q p _ _ hq hp (Node.msg.inj hm))
      · exact ⟨.inr ⟨tail, hc, rfl⟩, by simp⟩
    · intro h
      obtain ⟨⟨q, m', hq, rfl⟩ | hc, hout⟩ := h
      · refine .inl ⟨q, m', update_eq_some.2 (.inr ⟨?_, hq⟩), rfl⟩
        rintro rfl
        rw [hp] at hq
        cases hq
        exact hout ⟨rfl, rfl⟩
      · exact .inr hc
  · exact h.producers.link.write fun q m' hq => h.ne_waiting hprev (by
      rcases update_eq_some.1 hq with ⟨-, ⟨⟩⟩ | ⟨-, hq⟩
      exact hq)
  · refine h.consumer.store rfl rfl fun hout => ⟨hout, ?_⟩
    change Function.update s.next prev _ .stub = s.next .stub
    rw [Function.update_of_ne]
    rintro rfl
    exact hout hprev

/-! ## Any interleaving -/

/-- What a step is to the abstract queue: an exchange enters. -/
theorem step_refines {a : Action P M} (h : ∃ nodes, Inv s nodes) (hs : step s a = .ok s') :
    (∃ nodes, Inv s' nodes) ∧ Refines s s' := by
  obtain ⟨nodes, h⟩ := h
  cases a with
  | start p m =>
    obtain ⟨hp, hm, rfl⟩ := step_start_ok.1 hs
    exact ⟨⟨nodes, h.start hp hm⟩, .silent rfl rfl⟩
  | exchange p =>
    obtain ⟨m, hp, rfl⟩ := step_exchange_ok.1 hs
    refine ⟨⟨_, h.exchange hp⟩, [.enter (.msg m)], run_singleton_ok.2 ?_⟩
    simp [Fifo.step, State.fifo, State.returned]
  | link p =>
    obtain ⟨m, prev, hp, rfl⟩ := step_link_ok.1 hs
    exact ⟨⟨nodes, h.link hp⟩, .silent rfl rfl⟩
  | pop =>
    cases hs
    exact pop_refines h

/-- Every interleaving keeps the invariant and is a run of the abstract
queue. -/
theorem reachable_refines (h : Reachable s) :
    (∃ nodes, Inv s nodes) ∧ ∃ ops, run Fifo.step Fifo.new ops = .ok s.fifo := by
  obtain ⟨as, hrun⟩ := h
  exact run_refines State.fifo (fun _ _ _ => step_refines) ⟨_, Inv.start_inv⟩ hrun

end Handystats.MessageQueue
