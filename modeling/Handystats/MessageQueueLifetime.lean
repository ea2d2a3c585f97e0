/-
Who gets a node from `pop` may delete it, and `core` does so at once: no later
access is to its `next`, and neither `m_head_node` nor `m_tail_node` points to
it. A node leaves the chain when it is returned, and whatever is accessed is in
the chain or not yet in it.
-/
import Handystats.MessageQueueFifo

namespace Handystats.MessageQueue

open Runs LinkedChain

variable {P M : Type} [DecidableEq M] {s s' : State P M} {nodes : List (Node M)}

/-- The nodes whose `next` the step reads or writes. -/
def accessed (s : State P M) : Action P M → List (Node M)
  | .start _ m => [.msg m]
  | .exchange _ => []
  | .link p =>
    match s.producers p with
    | some (.link _ prev) => [prev]
    | _ => []
  | .pop =>
    match s.consumer with
    | .idle => [s.tailNode]
    | .loadNext tail | .reload tail => [tail]
    | .loadHead _ | .stubExchange _ => []
    | .stubNull _ => [.stub]
    | .stubLink _ prev => [prev]

theorem Inv.stub_out (h : Inv s nodes) : .stub ∉ s.returned := by
  intro hstub
  have hmem : Node.stub ∈ s.exchanged.map Node.msg := by
    rw [h.contents]
    exact List.mem_append_left _ hstub
  simp at hmem

/-- What is in the chain has not been returned. -/
theorem Inv.chain_out (h : Inv s nodes) {x : Node M} (hx : x ∈ nodes) : x ∉ s.returned := by
  intro hreturned
  have hne : x ≠ .stub := fun heq => h.stub_out (heq ▸ hreturned)
  have hnodup : (s.returned ++ nodes.filter (· ≠ .stub)).Nodup := by
    rw [← h.contents]
    exact h.producers.exchanged_nodup.map fun _ _ => Node.msg.inj
  exact (List.nodup_append'.1 hnodup).2.2 hreturned (List.mem_filter.2 ⟨hx, by simpa using hne⟩)

/-- A message that has not been exchanged has not been returned. -/
theorem Inv.unexchanged_out (h : Inv s nodes) {m : M} (hm : m ∉ s.exchanged) : .msg m ∉ s.returned := by
  intro hreturned
  have hmem : Node.msg m ∈ s.exchanged.map Node.msg := by
    rw [h.contents]
    exact List.mem_append_left _ hreturned
  exact hm (by simpa using hmem)

variable [DecidableEq P]

/-- **No access after the return.** Whatever the interleaving, once `pop` has
returned a node, no step reads or writes its `next`, and neither of the queue's
pointers is to it. -/
theorem returned_not_accessed (h : Reachable s) :
    s.headNode ∉ s.returned ∧ s.tailNode ∉ s.returned ∧
      ∀ a s', step s a = .ok s' → ∀ x ∈ accessed s a, x ∉ s.returned := by
  obtain ⟨⟨nodes, hinv⟩, -⟩ := reachable_refines h
  have hhead := hinv.chain_out hinv.chain.last_mem
  have htail := hinv.chain_out hinv.chain.first_mem
  refine ⟨hhead, htail, fun a s' hs x hx => ?_⟩
  cases a with
  | start p m =>
    obtain ⟨-, hm, -⟩ := step_start_ok.1 hs
    rw [List.mem_singleton.1 hx]
    exact hinv.unexchanged_out fun hex => hm (hinv.producers.exchanged_started m hex)
  | exchange p => cases hx
  | link p =>
    obtain ⟨m, prev, hp, -⟩ := step_link_ok.1 hs
    simp only [accessed, hp, List.mem_singleton] at hx
    rw [hx]
    exact hinv.chain_out (mem_of_neighbours (hinv.chain.pending _ _ (.inl ⟨p, m, hp, rfl⟩)).1).1
  | pop =>
    have hwork := hinv.consumer
    unfold AtWork at hwork
    cases hc : s.consumer with
    | idle =>
      simp only [accessed, hc, List.mem_singleton] at hx
      rw [hx]
      exact htail
    | loadNext tail =>
      simp only [hc] at hwork
      simp only [accessed, hc, List.mem_singleton] at hx
      rw [hx, hwork.1]
      exact htail
    | loadHead tail => simp [accessed, hc] at hx
    | stubNull tail =>
      simp only [accessed, hc, List.mem_singleton] at hx
      rw [hx]
      exact hinv.stub_out
    | stubExchange tail => simp [accessed, hc] at hx
    | stubLink tail prev =>
      simp only [accessed, hc, List.mem_singleton] at hx
      rw [hx]
      exact hinv.chain_out (mem_of_neighbours (hinv.chain.pending _ _ (.inr ⟨tail, hc, rfl⟩)).1).1
    | reload tail =>
      simp only [hc] at hwork
      simp only [accessed, hc, List.mem_singleton] at hx
      rw [hx, hwork.1]
      exact htail

/-- Two messages are pushed, and the first is popped. -/
def twoPushes : List (Action Bool Nat) :=
  [.start true 1, .exchange true, .link true, .start false 2, .exchange false, .link false, .pop, .pop]

theorem returned_not_accessed_sample : ∃ s, run step State.new twoPushes = .ok s ∧ s.returned = [.msg 1] ∧
    s.headNode ∉ s.returned := by
  obtain ⟨s, hs, hreturned⟩ : ∃ s, run step State.new twoPushes = .ok s ∧ s.returned = [.msg 1] := by
    decide +kernel
  exact ⟨s, hs, hreturned, (returned_not_accessed ⟨_, hs⟩).1⟩

end Handystats.MessageQueue
