/-
The drain loop `while (!empty()) pop()`, while no push is in progress.

The counter is then exact, so each `pop` that begins returns a message and
counts down; only one that was under way when the pushes ended may still return
null. `Within` gives each state its share: ten accesses for a message, and the
rest of the loop.
-/
import Handystats.MessageQueueAccounting

namespace Handystats.MessageQueue

open Runs

variable {P M : Type} [DecidableEq M]

/-- An access of `pop` that is not its last leaves fewer before it. -/
theorem pop_remaining {s : State P M} (h : s.pop.consumer ≠ .idle) :
    s.pop.consumer.remaining < s.consumer.remaining := by
  revert h
  cases hc : s.consumer with
  | idle =>
    simp only [State.pop, hc]
    split
    · simp [State.popReturns]
    · simp [PopState.remaining]
    · simp [State.popReturns, State.popTakes]
    · simp [PopState.remaining]
  | loadNext tail =>
    simp only [State.pop, hc]
    split
    · simp [State.popReturns, State.popTakes]
    · simp [PopState.remaining]
  | loadHead tail =>
    simp only [State.pop, hc]
    split
    · simp [State.popReturns]
    · simp [PopState.remaining]
  | stubNull tail => simp [State.pop, hc, PopState.remaining]
  | stubExchange tail => simp [State.pop, hc, PopState.remaining]
  | stubLink tail prev => simp [State.pop, hc, PopState.remaining]
  | reload tail =>
    simp only [State.pop, hc]
    split
    · simp [State.popReturns, State.popTakes]
    · simp [State.popReturns]

omit [DecidableEq M] in
theorem remaining_le (c : PopState M) : c.remaining ≤ 7 := by
  cases c <;> simp [PopState.remaining]

/-- No push is in progress. -/
structure NoPush (s : SizedState P M) : Prop where
  producers : ∀ p, s.queue.producers p = none
  incrementing : ∀ p, s.incrementing p = false

/-- The drain loop has read that the queue is empty. -/
def Drained (s : SizedState P M) : Prop := s.consumer = .idle ∧ s.mqSize = 0

instance (s : SizedState P M) : Decidable (Drained s) :=
  inferInstanceAs (Decidable (s.consumer = .idle ∧ s.mqSize = 0))

/-- The drain loop ends in fewer than `n` accesses. -/
def Within (s : SizedState P M) (n : Nat) : Prop :=
  match s.consumer with
  | .idle => 10 * s.mqSize + 1 ≤ n
  | .popping =>
    10 * s.mqSize + 2 + s.queue.consumer.remaining ≤ n ∨
      Approaching s.queue ∧ 10 * s.mqSize + s.queue.consumer.remaining ≤ n + 7
  | .decrement => 10 * s.mqSize ≤ n + 7
  | .readSize => 10 * s.mqSize + 2 ≤ n

variable {s : SizedState P M} {n : Nat}

theorem within_budget (s : SizedState P M) : Within s (10 * s.mqSize + 10) := by
  unfold Within
  have := remaining_le s.queue.consumer
  cases s.consumer with
  | idle => simp only; omega
  | popping => exact .inl (by omega)
  | decrement => simp only; omega
  | readSize => simp only; omega

theorem not_within_zero (h : Accounts s) : ¬ Within s 0 := by
  have hpos := h.positive
  have := remaining_pos s.queue.consumer
  unfold Within
  cases hc : s.consumer with
  | idle => simp only; omega
  | popping =>
    have := hpos (.inl hc)
    intro h
    rcases h with hn | ⟨-, hn⟩
    · omega
    · omega
  | decrement =>
    have := hpos (.inr hc)
    simp only
    omega
  | readSize => simp only; omega

theorem NoPush.consume (h : NoPush s) : NoPush s.consume := by
  cases hc : s.consumer with
  | idle =>
    by_cases hsize : s.mqSize = 0
    · rw [SizedState.consume_of_empty hc hsize]
      exact h
    · rw [SizedState.consume_of_nonempty hc hsize]
      exact ⟨h.producers, h.incrementing⟩
  | popping =>
    rw [SizedState.consume_popping hc]
    refine ⟨fun p => ?_, h.incrementing⟩
    rw [pop_producers]
    exact h.producers p
  | decrement =>
    rw [SizedState.consume_decrement hc]
    exact ⟨h.producers, h.incrementing⟩
  | readSize =>
    rw [SizedState.consume_readSize hc]
    exact ⟨h.producers, h.incrementing⟩

variable [DecidableEq P]

/-- A `pop` that begins now is on its way to a message. -/
theorem NoPush.approaching (h : NoPush s) (hr : SizedReachable s) (hc : s.consumer = .idle)
    (hsize : s.mqSize ≠ 0) : Approaching s.queue := by
  have hidle := hr.accounts.outside (by rw [hc]; simp)
  have hexact := hr.accounts.exact ⟨h.producers, h.incrementing, hc⟩
  obtain ⟨nodes, hinv⟩ := (reachable_refines hr.queue).1
  have hu : Unlinked s.queue := fun p m prev hl => by simp [h.producers p] at hl
  exact ⟨⟨nodes, hinv⟩, hu, hinv.going hu hidle (by omega)⟩

/-- One access, unless the loop has ended. -/
theorem Within.consume (hw : Within s (n + 1)) (hr : SizedReachable s) (h : NoPush s)
    (hnot : ¬ Drained s) : Within s.consume n := by
  have hpos := hr.accounts.positive
  unfold Within at hw
  cases hc : s.consumer with
  | idle =>
    rw [hc] at hw
    have hsize : s.mqSize ≠ 0 := fun hsize => hnot ⟨hc, hsize⟩
    have hidle := hr.accounts.outside (by rw [hc]; simp)
    rw [SizedState.consume_of_nonempty hc hsize]
    refine .inr ⟨h.approaching hr hc hsize, ?_⟩
    simp only [hidle, PopState.remaining] at hw ⊢
    omega
  | popping =>
    rw [hc] at hw
    have hrem := remaining_pos s.queue.consumer
    rw [SizedState.consume_popping hc]
    unfold Within
    rcases afterPop_cases s.queue with ⟨ha, hne, hres⟩ | ⟨ha, -, hres⟩ | ⟨node, ha, -, hres⟩
    · have hless := pop_remaining hne
      simp only [ha]
      rcases hw with hw | ⟨happ, hw⟩
      · exact .inl (by omega)
      · rcases approaching_step happ (a := .pop) rfl rfl with ⟨happ', -, -⟩ | ⟨m, hm⟩
        · exact .inr ⟨happ', by omega⟩
        · rw [hres] at hm
          simp at hm
    · simp only [ha]
      rcases hw with hw | ⟨happ, -⟩
      · omega
      · rcases approaching_step happ (a := .pop) rfl rfl with ⟨-, -, hsame⟩ | ⟨m, hm⟩
        · rw [hres] at hsame
          simp at hsame
        · rw [hres] at hm
          simp at hm
    · simp only [ha]
      rcases hw with hw | ⟨-, hw⟩
      · omega
      · omega
  | decrement =>
    rw [hc] at hw
    have := hpos (.inr hc)
    rw [SizedState.consume_decrement hc, sizeDecrement, if_neg (by omega)]
    simp only [Within] at hw ⊢
    omega
  | readSize =>
    rw [hc] at hw
    rw [SizedState.consume_readSize hc]
    simp only [Within] at hw ⊢
    omega

/-- **The drain loop ends.** While no push is in progress it gets to read that
the queue is empty, in a number of accesses that the counter bounds. -/
theorem drain_ends (hr : SizedReachable s) (h : NoPush s) :
    ∃ k, k < 10 * s.mqSize + 10 ∧ Drained (SizedState.consume^[k] s) := by
  refine iterate_reaches (I := fun s => SizedReachable s ∧ NoPush s) (W := Within) ?_ ?_ ?_ ⟨hr, h⟩
    (within_budget s)
  · intro s ⟨hr, h⟩
    exact ⟨hr.step (a := .consume) rfl, h.consume⟩
  · intro s n ⟨hr, h⟩ hw hnot
    exact hw.consume hr h hnot
  · intro s ⟨hr, _⟩
    exact not_within_zero hr.accounts

end Handystats.MessageQueue
