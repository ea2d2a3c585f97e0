/-
The life cycle of the core: `initialize`, `run_processor` and `finalize`, and
the measuring points, which test `is_enabled()`, create a message and push it.

Each access to `enabled_flag`, the queue pointer, the links and `mq_size` is one
step. `operation_mutex` lets one of `initialize` and `finalize` run at a time,
and `finalize` joins the processor thread before it drains the queue, so there
is one consumer. `config::core_opts.enable` is taken to be set.

The queue of an earlier incarnation is gone: who still has to do with it runs
into undefined behaviour. `mq_size` outlives the queues. `created`, `processed`
and `deleted` are history, each in order, and `earlier` has the messages that
were exchanged into earlier queues.
-/
import Handystats.MessageQueueSize

namespace Handystats.Core

open MessageQueue

variable {P M : Type}

/-- `event_message_queue`. -/
inductive Pointer where
  | null
  | live
  | dangling
  deriving DecidableEq

/-- Where a measuring point has got to: before which of its steps. `created`
tests the pointer, `tested` follows it, `pushing` is inside the queue's `push`
and `counting` before `++mq_size`. -/
inductive CallState (M : Type) where
  | idle
  | enabled
  | created (m : M)
  | tested (m : M)
  | pushing (m : M) (incarnation : Nat)
  | counting
  deriving DecidableEq

/-- The processor thread: not there, or at the head of its loop, or inside. -/
inductive ProcessorState where
  | stopped
  | testEnabled
  | consuming
  deriving DecidableEq

/-- Before which of its steps `initialize` is, and `finalize` from `disable`
on. -/
inductive CoreState where
  | idle
  | testEnabled
  | testQueue
  | newQueue
  | zeroNew
  | enable
  | spawn
  | disable
  | join
  | drain
  | zeroDrained
  | deleteQueue
  | dropQueue
  deriving DecidableEq

/-- The core, the processor thread and the measuring points. -/
structure State (P M : Type) where
  enabled : Bool
  pointer : Pointer
  incarnation : Nat
  sized : SizedState P M
  calls : P → CallState M
  processor : ProcessorState
  core : CoreState
  created : List M
  processed : List M
  deleted : List M
  earlier : List M

namespace State

/-- Before the first `initialize`. -/
def new : State P M where
  enabled := false
  pointer := .null
  incarnation := 0
  sized := SizedState.new
  calls := fun _ => .idle
  processor := .stopped
  core := .idle
  created := []
  processed := []
  deleted := []
  earlier := []

/-- A new queue: nobody is at work on it, and the counter is what it was. -/
def newQueue (s : State P M) : State P M :=
  { s with
    pointer := .live
    incarnation := s.incarnation + 1
    sized := { SizedState.new with incrementing := s.sized.incrementing, mqSize := s.sized.mqSize }
    earlier := s.earlier ++ s.sized.queue.exchanged }

/-- The message with which the consumer comes out of `message_queue::pop`. -/
def obtained (s : State P M) : List M :=
  match s.sized.consumer, s.sized.queue.returned.getLast? with
  | .readSize, some (.msg m) => [m]
  | _, _ => []

variable [DecidableEq M]

/-- The consumer's next access; `message_queue::pop` returns null where there is
no queue. Its test of the pointer belongs to the first access of the queue:
nobody changes the pointer while a consumer is there. -/
def consumed (s : State P M) : SizedState P M :=
  if s.sized.consumer = .popping ∧ s.pointer ≠ .live then { s.sized with consumer := .idle }
  else s.sized.consume

end State

/-- A step: a measuring point's, the processor thread's, a call of `initialize`
or of `finalize`, or the next step of that. -/
inductive Action (P M : Type) where
  | testEnabled (p : P)
  | create (p : P) (m : M)
  | testQueue (p : P)
  | start (p : P)
  | exchange (p : P)
  | link (p : P)
  | increment (p : P)
  | processor
  | callInitialize
  | callFinalize
  | core

/-- Why there is no next state: the step cannot be taken in this one, or it is
undefined behaviour. -/
inductive Failure where
  | disabled
  | undefinedBehaviour
  deriving DecidableEq

variable [DecidableEq P] [DecidableEq M]

/-- A step of the queue and its counter. -/
def sizedBy (s : SizedState P M) (a : SizedAction P M) : Except Failure (SizedState P M) :=
  match sizedStep s a with
  | .ok s' => .ok s'
  | .error _ => .error .disabled

/-- The next step of `initialize` or `finalize`. -/
def coreStep (s : State P M) : Except Failure (State P M) :=
  match s.core with
  | .idle => .error .disabled
  | .testEnabled => .ok { s with core := if s.enabled then .idle else .testQueue }
  | .testQueue => .ok { s with core := if s.pointer = .null then .newQueue else .enable }
  | .newQueue => .ok { s.newQueue with core := .zeroNew }
  | .zeroNew => .ok { s with sized := { s.sized with mqSize := 0 }, core := .enable }
  | .enable => .ok { s with enabled := true, core := .spawn }
  | .spawn => .ok { s with processor := .testEnabled, core := .idle }
  | .disable => .ok { s with enabled := false, core := .join }
  | .join => if s.processor = .stopped then .ok { s with core := .drain } else .error .disabled
  | .drain =>
    if s.sized.consumer = .idle ∧ s.sized.mqSize = 0 then .ok { s with core := .zeroDrained }
    else .ok { s with sized := s.consumed, deleted := s.deleted ++ s.obtained }
  | .zeroDrained => .ok { s with sized := { s.sized with mqSize := 0 }, core := .deleteQueue }
  | .deleteQueue =>
    .ok { s with pointer := if s.pointer = .null then .null else .dangling, core := .dropQueue }
  | .dropQueue => .ok { s with pointer := .null, core := .idle }

/-- The next step of `run_processor`. -/
def processorStep (s : State P M) : Except Failure (State P M) :=
  match s.processor with
  | .stopped => .error .disabled
  | .testEnabled => .ok { s with processor := if s.enabled then .consuming else .stopped }
  | .consuming =>
    .ok { s with
      sized := s.consumed
      processed := s.processed ++ s.obtained
      processor := if s.consumed.consumer = .idle then .testEnabled else .consuming }

/-- One step. A message is created once. -/
def step (s : State P M) : Action P M → Except Failure (State P M)
  | .testEnabled p =>
    match s.calls p with
    | .idle =>
      .ok { s with calls := Function.update s.calls p (if s.enabled then .enabled else .idle) }
    | _ => .error .disabled
  | .create p m =>
    match s.calls p with
    | .enabled =>
      if m ∈ s.created then .error .disabled
      else
        .ok { s with
          calls := Function.update s.calls p (.created m)
          created := s.created ++ [m] }
    | _ => .error .disabled
  | .testQueue p =>
    match s.calls p with
    | .created m =>
      .ok { s with
        calls := Function.update s.calls p (if s.pointer = .null then .idle else .tested m) }
    | _ => .error .disabled
  | .start p =>
    match s.calls p with
    | .tested m =>
      if s.pointer = .live then do
        let sized ← sizedBy s.sized (.start p m)
        .ok { s with
          sized := sized
          calls := Function.update s.calls p (.pushing m s.incarnation) }
      else .error .undefinedBehaviour
    | _ => .error .disabled
  | .exchange p =>
    match s.calls p with
    | .pushing _ incarnation =>
      if s.pointer = .live ∧ incarnation = s.incarnation then do
        let sized ← sizedBy s.sized (.exchange p)
        .ok { s with sized := sized }
      else .error .undefinedBehaviour
    | _ => .error .disabled
  | .link p =>
    match s.calls p with
    | .pushing _ incarnation =>
      if s.pointer = .live ∧ incarnation = s.incarnation then do
        let sized ← sizedBy s.sized (.link p)
        .ok { s with sized := sized, calls := Function.update s.calls p .counting }
      else .error .undefinedBehaviour
    | _ => .error .disabled
  | .increment p =>
    match s.calls p with
    | .counting => do
      let sized ← sizedBy s.sized (.increment p)
      .ok { s with sized := sized, calls := Function.update s.calls p .idle }
    | _ => .error .disabled
  | .processor => processorStep s
  | .callInitialize =>
    if s.core = .idle then .ok { s with core := .testEnabled } else .error .disabled
  | .callFinalize => if s.core = .idle then .ok { s with core := .disable } else .error .disabled
  | .core => coreStep s

end Handystats.Core
