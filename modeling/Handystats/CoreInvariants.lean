/-
What holds of the core, its queue and the measuring points in an orderly run.

`Orderly` is the condition on one step: no message is created that finds no
queue, none is pushed once the drain loop has ended, the loop does not end while
a push is in progress, and none is counted between the new queue and
`mq_size.store(0)`. `Good` is the invariant. Its parts: each call is where the
queue says its producer is (`Tied`), each message is with one call, in the queue
or let go (`Placed`, `Settled`), and the flag, the pointer and the processor
thread are what the core's place allows (`Legal`).
-/
import Mathlib.Data.Fintype.Basic
import Handystats.Core
import Handystats.Library.Handover
import Handystats.MessageQueueDrain

namespace Handystats.Core

open MessageQueue Handover

variable {P M : Type}

/-- The call is past the test of the pointer, inside `push`. -/
def CallState.inPush : CallState M → Bool
  | .pushing _ _ | .counting => true
  | _ => false

/-- `finalize` has left the drain loop. -/
def CoreState.pastDrain : CoreState → Bool
  | .zeroDrained | .deleteQueue | .dropQueue => true
  | _ => false

/-- The step does not fall between two of `initialize` or `finalize` that it
has to keep out of. -/
def Orderly (s : State P M) : Action P M → Prop
  | .testQueue _ => s.pointer ≠ .null
  | .start _ => s.pointer = .live ∧ s.core.pastDrain = false
  | .increment _ => s.core ≠ .zeroNew
  | .core => s.core = .drain → Drained s.sized → ∀ p, (s.calls p).inPush = false
  | _ => True

instance [Fintype P] (s : State P M) (a : Action P M) : Decidable (Orderly s a) :=
  match a with
  | .testQueue _ => inferInstanceAs (Decidable (s.pointer ≠ .null))
  | .start _ => inferInstanceAs (Decidable (s.pointer = .live ∧ s.core.pastDrain = false))
  | .increment _ => inferInstanceAs (Decidable (s.core ≠ .zeroNew))
  | .core =>
    inferInstanceAs (Decidable (s.core = .drain → Drained s.sized → ∀ p, (s.calls p).inPush = false))
  | .testEnabled _ | .create _ _ | .exchange _ | .link _ | .processor | .callInitialize | .callFinalize =>
    inferInstanceAs (Decidable True)

/-! ## The parts of the invariant -/

/-- A call's producer is where the call is. -/
def Tied (incarnation : Nat) (push : Option (PushState M)) (incrementing : Bool) : CallState M → Prop
  | .pushing m k => k = incarnation ∧ incrementing = false ∧ ∃ a, push = some a ∧ a.message = m
  | .counting => push = none ∧ incrementing = true
  | _ => push = none ∧ incrementing = false

/-- The message a call has in hand: created, and not yet exchanged into the
queue. -/
def inCall (push : Option (PushState M)) : CallState M → Option M
  | .created m | .tested m => some m
  | .pushing m _ =>
    match push with
    | some (.exchange _) => some m
    | _ => none
  | _ => none

/-- What the consumer has obtained and not yet let go. -/
def inHand (sized : SizedState P M) : List (Node M) :=
  match sized.consumer with
  | .decrement | .readSize => sized.queue.returned.getLast?.toList
  | _ => []

/-- What `pop` has returned, of this queue and of the earlier ones, is done with
or in the consumer's hand. -/
def Settled (done earlier : List M) (sized : SizedState P M) : Prop :=
  (done.map Node.msg ++ inHand sized).Perm (earlier.map Node.msg ++ sized.queue.returned)

/-- Nobody has to do with the queue, and it is empty. -/
structure Quiet (calls : P → CallState M) (sized : SizedState P M) : Prop where
  calls : ∀ p, (calls p).inPush = false
  drained : Drained sized
  returned : sized.queue.returned.length = sized.queue.exchanged.length

/-- The flag, the pointer and the processor thread, by the core's place. -/
def CoreState.Legal (enabled : Bool) (pointer : Pointer) (processor : ProcessorState) :
    CoreState → Prop
  | .idle | .testEnabled | .disable =>
    (enabled = false ∧ pointer = .null ∧ processor = .stopped) ∨
      (enabled = true ∧ pointer = .live ∧ processor ≠ .stopped)
  | .testQueue | .newQueue => enabled = false ∧ pointer = .null ∧ processor = .stopped
  | .zeroNew | .enable => enabled = false ∧ pointer = .live ∧ processor = .stopped
  | .spawn => enabled = true ∧ pointer = .live ∧ processor = .stopped
  | .join => enabled = false ∧ (pointer = .live ∨ pointer = .null ∧ processor = .stopped)
  | .drain | .zeroDrained | .deleteQueue =>
    enabled = false ∧ pointer ≠ .dangling ∧ processor = .stopped
  | .dropQueue => enabled = false ∧ pointer ≠ .live ∧ processor = .stopped

section

variable [DecidableEq P] [DecidableEq M]

/-- The invariant of the orderly runs. -/
structure Good (s : State P M) : Prop where
  reach : SizedReachable s.sized
  tied : ∀ p, Tied s.incarnation (s.sized.queue.producers p) (s.sized.incrementing p) (s.calls p)
  placed : Placed (fun p => inCall (s.sized.queue.producers p) (s.calls p)) s.created
    (s.earlier ++ s.sized.queue.exchanged)
  settled : Settled (s.processed ++ s.deleted) s.earlier s.sized
  legal : s.core.Legal s.enabled s.pointer s.processor
  outside : s.processor ≠ .consuming → s.core ≠ .drain → s.sized.consumer = .idle
  quiet : s.pointer ≠ .live ∨ s.core.pastDrain = true → Quiet s.calls s.sized
  zero : s.core = .zeroNew → s.sized.mqSize = 0

theorem good_new : Good (State.new : State P M) where
  reach := ⟨[], rfl⟩
  tied := fun _ => ⟨rfl, rfl⟩
  placed := placed_empty
  settled := List.Perm.refl _
  legal := .inl ⟨rfl, rfl, rfl⟩
  outside := fun _ _ => rfl
  quiet := fun _ => ⟨fun _ => rfl, ⟨rfl, rfl⟩, rfl⟩
  zero := fun h => by cases h

end

/-! ## Calls -/

theorem Tied.outside {incarnation : Nat} {push : Option (PushState M)} {incrementing : Bool}
    {call : CallState M} (h : Tied incarnation push incrementing call) (hc : call.inPush = false) :
    push = none ∧ incrementing = false := by
  cases call with
  | pushing m k => cases hc
  | counting => cases hc
  | _ => exact h

theorem Tied.of_none {incarnation : Nat} {call : CallState M} (hc : call.inPush = false) :
    Tied incarnation none false call := by
  cases call with
  | pushing m k => cases hc
  | counting => cases hc
  | _ => exact ⟨rfl, rfl⟩

variable [DecidableEq P] [DecidableEq M] {s s' : State P M}

theorem Good.noPush (h : Good s) (hc : ∀ p, (s.calls p).inPush = false) : NoPush s.sized where
  producers := fun p => ((h.tied p).outside (hc p)).1
  incrementing := fun p => ((h.tied p).outside (hc p)).2

/-- Where a call is inside `push`, the queue is there, and not given up. -/
theorem Good.live (h : Good s) {p : P} (hp : (s.calls p).inPush = true) :
    s.pointer = .live ∧ s.core.pastDrain = false := by
  have hnot : ¬ (s.pointer ≠ .live ∨ s.core.pastDrain = true) := by
    intro hq
    rw [(h.quiet hq).calls p] at hp
    cases hp
  rw [not_or, not_not, Bool.not_eq_true] at hnot
  exact hnot

/-! ## The consumer's access -/

omit [DecidableEq P] in
theorem consume_producers (sized : SizedState P M) :
    sized.consume.queue.producers = sized.queue.producers := by
  unfold SizedState.consume
  cases sized.consumer with
  | idle => split_ifs <;> rfl
  | popping => exact pop_producers
  | decrement => rfl
  | readSize => rfl

omit [DecidableEq P] in
theorem consume_incrementing (sized : SizedState P M) :
    sized.consume.incrementing = sized.incrementing := by
  unfold SizedState.consume
  cases sized.consumer with
  | idle => split_ifs <;> rfl
  | popping => rfl
  | decrement => rfl
  | readSize => rfl

omit [DecidableEq P] in
theorem consume_exchanged (sized : SizedState P M) :
    sized.consume.queue.exchanged = sized.queue.exchanged := by
  unfold SizedState.consume
  cases sized.consumer with
  | idle => split_ifs <;> rfl
  | popping => exact pop_exchanged
  | decrement => rfl
  | readSize => rfl

/-- What the consumer comes out of `message_queue::pop` with is done with. -/
theorem Settled.consume {done : List M} (h : Settled done s.earlier s.sized)
    (hr : SizedReachable s.sized) : Settled (done ++ s.obtained) s.earlier s.sized.consume := by
  unfold Settled inHand at h ⊢
  cases hc : s.sized.consumer with
  | idle =>
    rw [hc] at h
    have hnone : s.obtained = [] := by simp [State.obtained, hc]
    rw [hnone, List.append_nil]
    by_cases hsize : s.sized.mqSize = 0
    · rw [SizedState.consume_of_empty hc hsize, hc]
      exact h
    · rw [SizedState.consume_of_nonempty hc hsize]
      exact h
  | popping =>
    rw [hc] at h
    have hnone : s.obtained = [] := by simp [State.obtained, hc]
    rw [hnone, List.append_nil, SizedState.consume_popping hc]
    rcases afterPop_cases s.sized.queue with ⟨ha, -, hres⟩ | ⟨ha, -, hres⟩ | ⟨node, ha, -, hres⟩
    · simpa [ha, MessageQueue.State.returned, hres] using h
    · simpa [ha, MessageQueue.State.returned, hres] using h
    · have hlast : s.sized.queue.pop.returned = s.sized.queue.returned ++ [node] := by
        simp [MessageQueue.State.returned, hres]
      simp only [ha, hlast, List.getLast?_concat, Option.toList_some]
      rw [← List.append_assoc]
      simp only [List.append_nil] at h
      exact h.append_right [node]
  | decrement =>
    rw [hc] at h
    have hnone : s.obtained = [] := by simp [State.obtained, hc]
    rw [hnone, List.append_nil, SizedState.consume_decrement hc]
    exact h
  | readSize =>
    rw [hc] at h
    rw [SizedState.consume_readSize hc]
    simp only [List.append_nil]
    cases hlast : s.sized.queue.returned.getLast? with
    | none => simpa [State.obtained, hc, hlast] using h
    | some node =>
      cases node with
      | stub =>
        have := List.mem_of_getLast? hlast
        exact absurd this (queue_refines_fifo hr.queue).2.2.2.1
      | msg m => simpa [State.obtained, hc, hlast] using h

end Handystats.Core
