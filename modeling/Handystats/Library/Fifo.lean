/-
First in, first out.

A queue is what has entered it and what has left it, both in order; what
leaves is the first that entered and has not left. `left_prefix` is the
property of its runs.
-/
import Handystats.Library.Runs

namespace Handystats.Fifo

open Runs

variable {α : Type}

/-- What has entered and what has left. -/
structure Queue (α : Type) where
  entered : List α
  left : List α

/-- What can be done with a queue. -/
inductive Op (α : Type) where
  | enter (a : α)
  | leave

/-- The queue is empty. -/
inductive Empty where
  | empty

/-- One operation. -/
def step (q : Queue α) : Op α → Except Empty (Queue α)
  | .enter a => .ok { q with entered := q.entered ++ [a] }
  | .leave =>
    match q.entered.drop q.left.length with
    | [] => .error .empty
    | a :: _ => .ok { q with left := q.left ++ [a] }

/-- The queue nothing has entered. -/
def new : Queue α := ⟨[], []⟩

theorem step_leave {entered left rest : List α} {a : α} (h : entered = left ++ a :: rest) :
    step ⟨entered, left⟩ .leave = .ok ⟨entered, left ++ [a]⟩ := by
  simp [step, h]

/-- **First in, first out.** What has left is a prefix of what has entered. -/
theorem left_prefix {ops : List (Op α)} {q : Queue α} (h : run step new ops = .ok q) :
    q.left <+: q.entered := by
  refine run_inv (I := fun _ q => q.left <+: q.entered) ?_ (List.prefix_refl []) h
  rintro - ⟨entered, left⟩ op q' ⟨rest, hrest⟩ hs
  change left ++ rest = entered at hrest
  subst hrest
  cases op with
  | enter a =>
    simp only [step, Except.ok.injEq] at hs
    subst hs
    exact ⟨rest ++ [a], by simp⟩
  | leave =>
    cases rest with
    | nil => simp [step] at hs
    | cons a rest =>
      rw [step_leave rfl, Except.ok.injEq] at hs
      subst hs
      exact ⟨rest, by simp⟩

end Handystats.Fifo
