/-
Cells that are owned, one each, by the items that are live.

`Held` says that a live item finds its value where it put it, that no cell is in
use but by a live item, and that no two share one. Then a cell can be freed once
by its owner, and is empty after that; nothing is left when no item is.
-/
import Mathlib.Logic.Function.Basic

namespace Handystats.Ownership

variable {ι α ν : Type} [DecidableEq α]

/-- The live items hold the cells at their addresses, with their values in them. -/
structure Held (address : ι → α) (value : ι → ν) (live : ι → Prop) (heap : α → Option ν) : Prop where
  holds : ∀ i, live i → heap (address i) = some (value i)
  owned : ∀ a v, heap a = some v → ∃ i, live i ∧ address i = a
  apart : ∀ i j, live i → live j → address i = address j → i = j

variable {address : ι → α} {value : ι → ν} {live live' : ι → Prop} {heap : α → Option ν} {i : ι}

omit [DecidableEq α] in
theorem held_nothing : Held address value (fun _ => False) fun _ => none where
  holds := fun _ h => h.elim
  owned := fun _ _ h => by cases h
  apart := fun _ _ h => h.elim

omit [DecidableEq α] in
theorem Held.congr (h : Held address value live heap) (hlive : ∀ i, live i ↔ live' i) :
    Held address value live' heap where
  holds := fun i hi => h.holds i ((hlive i).2 hi)
  owned := fun a v ha => by
    obtain ⟨i, hi, hia⟩ := h.owned a v ha
    exact ⟨i, (hlive i).1 hi, hia⟩
  apart := fun i j hi hj => h.apart i j ((hlive i).2 hi) ((hlive j).2 hj)

omit [DecidableEq α] in
/-- What is in a cell is its owner's. -/
theorem Held.heap_eq_some (h : Held address value live heap) {a : α} {v : ν} :
    heap a = some v ↔ ∃ i, live i ∧ address i = a ∧ value i = v := by
  constructor
  · intro ha
    obtain ⟨i, hi, rfl⟩ := h.owned a v ha
    exact ⟨i, hi, rfl, Option.some.inj ((h.holds i hi).symm.trans ha)⟩
  · intro howner
    obtain ⟨i, hi, rfl, rfl⟩ := howner
    exact h.holds i hi

/-- An item comes to life with a cell that was empty. -/
theorem Held.allocate (h : Held address value live heap) (hfree : heap (address i) = none) :
    Held address value (fun j => live j ∨ j = i) (Function.update heap (address i) (some (value i))) := by
  have hfresh : ∀ j, live j → address j ≠ address i := by
    intro j hj heq
    have hholds := h.holds j hj
    rw [heq, hfree] at hholds
    cases hholds
  refine ⟨fun j hj => ?_, fun a v ha => ?_, fun j k hj hk heq => ?_⟩
  · rcases hj with hj | rfl
    · rw [Function.update_of_ne (hfresh j hj)]
      exact h.holds j hj
    · exact Function.update_self ..
  · by_cases hai : a = address i
    · exact ⟨i, .inr rfl, hai.symm⟩
    · rw [Function.update_of_ne hai] at ha
      obtain ⟨j, hj, hja⟩ := h.owned a v ha
      exact ⟨j, .inl hj, hja⟩
  · rcases hj with hj | rfl <;> rcases hk with hk | rfl
    · exact h.apart j k hj hk heq
    · exact absurd heq (hfresh j hj)
    · exact absurd heq.symm (hfresh k hk)
    · rfl

/-- An item dies, and its cell is freed. -/
theorem Held.free (h : Held address value live heap) (hi : live i) :
    Held address value (fun j => live j ∧ j ≠ i) (Function.update heap (address i) none) where
  holds := fun j hj => by
    have hne : address j ≠ address i := fun heq => hj.2 (h.apart j i hj.1 hi heq)
    rw [Function.update_of_ne hne]
    exact h.holds j hj.1
  owned := fun a v ha => by
    by_cases hai : a = address i
    · rw [hai, Function.update_self] at ha
      cases ha
    · rw [Function.update_of_ne hai] at ha
      obtain ⟨j, hj, rfl⟩ := h.owned a v ha
      exact ⟨j, ⟨hj, fun heq => hai (congrArg address heq)⟩, rfl⟩
  apart := fun j k hj hk => h.apart j k hj.1 hk.1

omit [DecidableEq α] in
/-- Where no item is live, no cell is in use. -/
theorem Held.empty (h : Held address value live heap) (hnone : ∀ i, ¬ live i) (a : α) : heap a = none := by
  cases ha : heap a with
  | none => rfl
  | some v =>
    obtain ⟨i, hi, -⟩ := h.owned a v ha
    exact absurd hi (hnone i)

end Handystats.Ownership
