/-
`message_queue`: the event queue with its size counter `mq_size`.

A producer increments the counter after its push, a fourth access. The
consumer, like `run_processor`, reads the counter first and calls `pop` only if
it is not zero; `pop` decrements it when it has obtained a message, and then
reads it for `stats::size`.

The counter counts messages that exist at one time, so it does not get to
`2^64`; what matters is that it wraps below zero, and so `--mq_size` does here.

`decrements` and `sizes` are history: how many decrements have run, and what
`stats::size` was fed.
-/
import Mathlib.Algebra.Group.Nat.Defs
import Handystats.MessageQueue

namespace Handystats.MessageQueue

variable {P M : Type}

/-- Before which of its accesses the consumer is: reading `mq_size` to decide
on a `pop`, inside the queue's `pop`, and after a message was obtained. -/
inductive ConsumerState where
  | idle
  | popping
  | decrement
  | readSize
  deriving DecidableEq

/-- The queue, its counter, and what the producers and the consumer do to it. -/
structure SizedState (P M : Type) where
  queue : State P M
  incrementing : P → Bool
  mqSize : Nat
  consumer : ConsumerState
  decrements : Nat
  sizes : List Nat

/-- `--` on a `size_t`. -/
def sizeDecrement (n : Nat) : Nat := if n = 0 then 2 ^ 64 - 1 else n - 1

namespace SizedState

/-- A new queue, with its counter at 0. -/
def new : SizedState P M where
  queue := State.new
  incrementing := fun _ => false
  mqSize := 0
  consumer := .idle
  decrements := 0
  sizes := []

variable [DecidableEq M]

/-- What the consumer does once the queue's `pop` has made an access. -/
def afterPop (queue : State P M) : ConsumerState :=
  match queue.consumer, queue.results.getLast? with
  | .idle, some (some _) => .decrement
  | .idle, _ => .idle
  | _, _ => .popping

/-- The consumer's next access. -/
def consume (s : SizedState P M) : SizedState P M :=
  match s.consumer with
  | .idle => if s.mqSize = 0 then s else { s with consumer := .popping }
  | .popping => { s with queue := s.queue.pop, consumer := afterPop s.queue.pop }
  | .decrement =>
    { s with
      mqSize := sizeDecrement s.mqSize
      decrements := s.decrements + 1
      consumer := .readSize }
  | .readSize => { s with sizes := s.sizes ++ [s.mqSize], consumer := .idle }

section

variable {s : SizedState P M}

theorem consume_of_empty (hc : s.consumer = .idle) (h : s.mqSize = 0) : s.consume = s := by
  simp [consume, hc, h]

theorem consume_of_nonempty (hc : s.consumer = .idle) (h : s.mqSize ≠ 0) :
    s.consume = { s with consumer := .popping } := by
  simp [consume, hc, h]

theorem consume_popping (hc : s.consumer = .popping) :
    s.consume = { s with queue := s.queue.pop, consumer := afterPop s.queue.pop } := by
  simp [consume, hc]

theorem consume_decrement (hc : s.consumer = .decrement) :
    s.consume = { s with
      mqSize := sizeDecrement s.mqSize
      decrements := s.decrements + 1
      consumer := .readSize } := by
  simp [consume, hc]

theorem consume_readSize (hc : s.consumer = .readSize) :
    s.consume = { s with sizes := s.sizes ++ [s.mqSize], consumer := .idle } := by
  simp [consume, hc]

end

end SizedState

/-- A step: a producer's four accesses, or the consumer's next one. -/
inductive SizedAction (P M : Type) where
  | start (p : P) (m : M)
  | exchange (p : P)
  | link (p : P)
  | increment (p : P)
  | consume

variable [DecidableEq P] [DecidableEq M]

/-- One step. -/
def sizedStep (s : SizedState P M) : SizedAction P M → Except Disabled (SizedState P M)
  | .start p m =>
    if s.incrementing p then .error .disabled
    else do
      let queue ← step s.queue (.start p m)
      .ok { s with queue := queue }
  | .exchange p => do
    let queue ← step s.queue (.exchange p)
    .ok { s with queue := queue }
  | .link p => do
    let queue ← step s.queue (.link p)
    .ok { s with queue := queue, incrementing := Function.update s.incrementing p true }
  | .increment p =>
    if s.incrementing p then
      .ok { s with
        mqSize := s.mqSize + 1
        incrementing := Function.update s.incrementing p false }
    else .error .disabled
  | .consume => .ok s.consume

open Runs

/-! ## What a producer's step does -/

section

variable {s s' : SizedState P M} {p : P}

theorem sizedStep_start_ok {m : M} : sizedStep s (.start p m) = .ok s' ↔
    s.incrementing p = false ∧
      ∃ queue, step s.queue (.start p m) = .ok queue ∧ { s with queue := queue } = s' := by
  cases hi : s.incrementing p with
  | false => simp [sizedStep, hi, bind_eq_ok]
  | true => simp [sizedStep, hi]

theorem sizedStep_exchange_ok : sizedStep s (.exchange p) = .ok s' ↔
    ∃ queue, step s.queue (.exchange p) = .ok queue ∧ { s with queue := queue } = s' := by
  simp [sizedStep, bind_eq_ok]

theorem sizedStep_link_ok : sizedStep s (.link p) = .ok s' ↔
    ∃ queue, step s.queue (.link p) = .ok queue ∧
      { s with queue := queue, incrementing := Function.update s.incrementing p true } = s' := by
  simp [sizedStep, bind_eq_ok]

theorem sizedStep_increment_ok : sizedStep s (.increment p) = .ok s' ↔
    s.incrementing p = true ∧ s' = { s with
      mqSize := s.mqSize + 1
      incrementing := Function.update s.incrementing p false } := by
  cases hi : s.incrementing p with
  | false => simp [sizedStep, hi]
  | true => simp [sizedStep, hi, eq_comm]

end

/-- Some interleaving leads from a new queue to `s`. -/
def SizedReachable (s : SizedState P M) : Prop := ∃ as, run sizedStep SizedState.new as = .ok s

end Handystats.MessageQueue
