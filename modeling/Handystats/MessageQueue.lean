/-
`__event_message_queue`: an intrusive queue of event messages, with any
number of producers and one consumer.

Each atomic access is one step, under sequential consistency; what runs
between two accesses touches only the consumer's own `m_tail_node` and local
variables and belongs to the access before it. A pusher stopped between its
exchange and its store leaves the list cut in the middle. `pop` pushes the
stub like a producer, in the same three steps.

`started`, `exchanged` and `results` are history: the messages whose push has
begun, those exchanged into `m_head_node`, and what the calls of `pop` have
returned, each in order.
-/
import Mathlib.Logic.Function.Basic
import Handystats.Library.Fifo
import Handystats.Library.LinkedChain

namespace Handystats.MessageQueue

variable {P M : Type}

/-- `node`: the queue's own `m_stub_node`, or a message. -/
inductive Node (M : Type) where
  | stub
  | msg (m : M)
  deriving DecidableEq

/-- Where a producer's `push` has got to: its node's `next` is null, or the
node is exchanged and `prev->next` not yet stored. -/
inductive PushState (M : Type) where
  | exchange (m : M)
  | link (m : M) (prev : Node M)

/-- Where the consumer's `pop` has got to, with its local variables: before
which of its accesses. -/
inductive PopState (M : Type) where
  | idle
  | loadNext (tail : Node M)
  | loadHead (tail : Node M)
  | stubNull (tail : Node M)
  | stubExchange (tail : Node M)
  | stubLink (tail prev : Node M)
  | reload (tail : Node M)

/-- The queue, the producers and the consumer. -/
structure State (P M : Type) where
  next : Node M → Option (Node M)
  headNode : Node M
  tailNode : Node M
  producers : P → Option (PushState M)
  consumer : PopState M
  started : List M
  exchanged : List M
  results : List (Option (Node M))

namespace State

/-- The queue as constructed, with nobody at work. -/
def new : State P M where
  next := fun _ => none
  headNode := .stub
  tailNode := .stub
  producers := fun _ => none
  consumer := .idle
  started := []
  exchanged := []
  results := []

/-- The nodes that `pop` has returned. -/
def returned (s : State P M) : List (Node M) := s.results.filterMap id

/-- `pop` returns `result`. -/
def popReturns (s : State P M) (result : Option (Node M)) : State P M :=
  { s with consumer := .idle, results := s.results ++ [result] }

/-- `m_tail_node = next; return tail;`. -/
def popTakes (s : State P M) (tail next : Node M) : State P M :=
  { s with tailNode := next }.popReturns (some tail)

variable [DecidableEq M]

/-- The next access of `pop`. -/
def pop (s : State P M) : State P M :=
  match s.consumer with
  | .idle =>
    let tail := s.tailNode
    match tail, s.next tail with
    | .stub, none => s.popReturns none
    | .stub, some next => { s with tailNode := next, consumer := .loadNext next }
    | .msg _, some next => s.popTakes tail next
    | .msg _, none => { s with consumer := .loadHead tail }
  | .loadNext tail =>
    match s.next tail with
    | some next => s.popTakes tail next
    | none => { s with consumer := .loadHead tail }
  | .loadHead tail =>
    if tail ≠ s.headNode then s.popReturns none
    else { s with consumer := .stubNull tail }
  | .stubNull tail =>
    { s with next := Function.update s.next .stub none, consumer := .stubExchange tail }
  | .stubExchange tail =>
    { s with headNode := .stub, consumer := .stubLink tail s.headNode }
  | .stubLink tail prev =>
    { s with next := Function.update s.next prev (some .stub), consumer := .reload tail }
  | .reload tail =>
    match s.next tail with
    | some next => s.popTakes tail next
    | none => s.popReturns none

end State

/-- A step: a producer's three accesses, or the consumer's next one. -/
inductive Action (P M : Type) where
  | start (p : P) (m : M)
  | exchange (p : P)
  | link (p : P)
  | pop

/-- The step cannot be taken in this state. -/
inductive Disabled where
  | disabled

variable [DecidableEq P] [DecidableEq M]

/-- One step. A message is pushed once. -/
def step (s : State P M) : Action P M → Except Disabled (State P M)
  | .start p m =>
    match s.producers p with
    | none =>
      if m ∈ s.started then .error .disabled
      else
        .ok { s with
          next := Function.update s.next (.msg m) none
          producers := Function.update s.producers p (some (.exchange m))
          started := s.started ++ [m] }
    | some _ => .error .disabled
  | .exchange p =>
    match s.producers p with
    | some (.exchange m) =>
      .ok { s with
        headNode := .msg m
        producers := Function.update s.producers p (some (.link m s.headNode))
        exchanged := s.exchanged ++ [m] }
    | _ => .error .disabled
  | .link p =>
    match s.producers p with
    | some (.link m prev) =>
      .ok { s with
        next := Function.update s.next prev (some (.msg m))
        producers := Function.update s.producers p none }
    | _ => .error .disabled
  | .pop => .ok s.pop

/-! ## What a producer's step does -/

section

variable {s s' : State P M} {p : P}

theorem step_start_ok {m : M} : step s (.start p m) = .ok s' ↔
    s.producers p = none ∧ m ∉ s.started ∧ s' = { s with
      next := Function.update s.next (.msg m) none
      producers := Function.update s.producers p (some (.exchange m))
      started := s.started ++ [m] } := by
  cases hp : s.producers p with
  | some a => simp [step, hp]
  | none =>
    by_cases hm : m ∈ s.started
    · simp [step, hp, hm]
    · simp [step, hp, hm, eq_comm]

theorem step_exchange_ok : step s (.exchange p) = .ok s' ↔
    ∃ m, s.producers p = some (.exchange m) ∧ s' = { s with
      headNode := .msg m
      producers := Function.update s.producers p (some (.link m s.headNode))
      exchanged := s.exchanged ++ [m] } := by
  cases hp : s.producers p with
  | none => simp [step, hp]
  | some a =>
    cases a with
    | exchange m => simp [step, hp, eq_comm]
    | link m prev => simp [step, hp]

theorem step_link_ok : step s (.link p) = .ok s' ↔
    ∃ m prev, s.producers p = some (.link m prev) ∧ s' = { s with
      next := Function.update s.next prev (some (.msg m))
      producers := Function.update s.producers p none } := by
  cases hp : s.producers p with
  | none => simp [step, hp]
  | some a =>
    cases a with
    | exchange m => simp [step, hp]
    | link m prev => simp [step, hp, eq_comm]

end

open Runs

/-- Some interleaving leads from the new queue to `s`. -/
def Reachable (s : State P M) : Prop := ∃ as, run step State.new as = .ok s

end Handystats.MessageQueue
