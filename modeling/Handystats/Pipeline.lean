/-
The library as a whole: from the measuring points through the queue to the
metrics.

`Core` has the interleavings, message by message; here the messages say
something. A measuring point that creates one allocates the value of an
attribute; the processing thread takes a turn with each message that `pop` gives
it; and who is done with a message deletes it, with that value. What a step
finds around it (the clock, the configuration) comes with it.
-/
import Handystats.Core
import Handystats.Processor

namespace Handystats

/-- What the messages of a run say: the event message that each is, and the value
that its `event_data` points to if it is an attribute's. -/
structure Traffic (M : Type) where
  message : M → EventMessage
  value : M → AttributeValue

/-- Its `event_data` is a pointer to a value of its own. -/
def EventMessage.ownsValue (message : EventMessage) : Bool :=
  message.destinationType = .attribute && message.eventType = AttributeEvents.set

/-- `delete_event_message`: undefined where the value is not there. -/
def deleteEventMessage (heap : AttributeHeap) (message : EventMessage) : Except Fault AttributeHeap :=
  if message.ownsValue then
    match heap message.eventData with
    | some _ => .ok (Function.update heap message.eventData none)
    | none => .error .undefinedBehaviour
  else .ok heap

namespace Pipeline

/-- The processing thread: its data, the configuration that it was started
with, and (history) what it has processed. -/
structure Thread (M K : Type) where
  config : Config
  processor : Processor K
  served : List M

/-- The whole. -/
structure State (P M K : Type) where
  core : Core.State P M
  heap : AttributeHeap
  thread : Option (Thread M K)

/-- Before the first `initialize`. -/
def State.new {P M K : Type} : State P M K := ⟨Core.State.new, fun _ => none, none⟩

/-- What a step finds around it: the clock where it is read, and the
configuration. -/
structure Surroundings where
  config : Config
  internalNow : Int
  queueNow : Int
  now : Int
  currentTime : Int
  processStartTime : Int
  processEndTime : Int
  systemTime : Int
  readings : MetricsDump.Readings

/-- A step of the core, with what it finds around it. -/
structure Action (P M : Type) where
  action : Core.Action P M
  sur : Surroundings

/-- Why there is no next state: for a reason of the core, because the address is
in use, or with a fault. -/
inductive Failure where
  | core (failure : Core.Failure)
  | notFree
  | fault (fault : Fault)
  deriving DecidableEq

variable {P M K : Type}

/-- A result of the thread's, or of a deletion. -/
def orFault {α : Type} : Except Fault α → Except Failure α
  | .ok a => .ok a
  | .error fault => .error (.fault fault)

/-! ## Values -/

/-- The creation of a message. -/
def allocate (traffic : Traffic M) (heap : AttributeHeap) (m : M) : Except Failure AttributeHeap :=
  if (traffic.message m).ownsValue then
    if (heap (traffic.message m).eventData).isSome then .error .notFree
    else .ok (Function.update heap (traffic.message m).eventData (some (traffic.value m)))
  else .ok heap

/-- The message that the step is done with: `process_message_queue` deletes it,
or the drain loop. -/
def finished (s : Core.State P M) : Core.Action P M → List M
  | .processor => if s.processor = .consuming then s.obtained else []
  | .core => if s.core = .drain then s.obtained else []
  | _ => []

/-- What the step does to the values. -/
def heapStep (traffic : Traffic M) (s : State P M K) : Core.Action P M → Except Failure AttributeHeap
  | .create _ m => allocate traffic s.heap m
  | action =>
    orFault ((finished s.core action).foldlM (fun heap m => deleteEventMessage heap (traffic.message m)) s.heap)

variable [Field K] [LinearOrder K] [DecidableEq P] [DecidableEq M]

/-! ## The thread -/

/-- What the turn finds that ends with this step. -/
def found (traffic : Traffic M) (s : State P M K) (sur : Surroundings) : Found :=
  match s.core.obtained with
  | m :: _ =>
    .message (traffic.message m) ⟨s.heap, sur.processStartTime, sur.processEndTime⟩ sur.currentTime
      s.core.sized.mqSize
  | [] => if s.core.sized.consumer = .idle then .empty sur.now else .nothing

/-- The step ends a turn of `run_processor`'s loop. -/
def endsTurn (s : Core.State P M) : Core.Action P M → Bool
  | .processor => s.processor = .consuming && s.consumed.consumer = .idle
  | _ => false

/-- The end of a turn. -/
def turn (env : Environment K) (traffic : Traffic M) (s : State P M K) (sur : Surroundings) :
    Except Fault (Option (Thread M K)) :=
  match s.thread with
  | some thread => do
    let processor ← thread.processor.turn env thread.config
      ⟨found traffic s sur, sur.systemTime, sur.readings⟩
    .ok (some { thread with processor := processor, served := thread.served ++ s.core.obtained })
  | none => .error .undefinedBehaviour

/-- What the step does to the thread's data: `initialize` makes them, `finalize`
gives them up when it has joined the thread. -/
def threadStep (env : Environment K) (traffic : Traffic M) (s : State P M K) (a : Action P M) :
    Except Fault (Option (Thread M K)) :=
  if endsTurn s.core a.action then turn env traffic s a.sur
  else
    match a.action, s.core.core with
    | .core, .spawn => do
      let processor ← Processor.initialized env a.sur.internalNow a.sur.queueNow
      .ok (some ⟨a.sur.config, processor, []⟩)
    | .core, .join => .ok none
    | _, _ => .ok s.thread

/-- One step. -/
def step (env : Environment K) (traffic : Traffic M) (s : State P M K) (a : Action P M) :
    Except Failure (State P M K) := do
  let core ← (Core.step s.core a.action).mapError .core
  let thread ← orFault (threadStep env traffic s a)
  let heap ← heapStep traffic s a.action
  .ok ⟨core, heap, thread⟩

end Pipeline

end Handystats
