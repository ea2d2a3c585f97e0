/-
A store of values by keys, and the events that change it: one for one key,
which may find a value there or not, or one for all the values there are.

What becomes of a key is decided by the events that concern it alone
(`run_at`), and a run returns where it does so key by key (`exists_run_iff`).
So two histories that agree on every key lead to one store, however their
events are interleaved (`run_congr`); and where the events for all do not
matter, to related ones (`history_rel`).
-/
import Mathlib.Logic.Function.Basic
import Handystats.Library.Runs

namespace Handystats.Keyed

open Runs

/-- An event for one key, or for all. -/
inductive Event (κ ι β : Type) where
  | one (key : κ) (input : ι)
  | all (input : β)

variable {κ ν ι β ε : Type}

/-- The values that are there. -/
abbrev Store (κ ν : Type) := κ → Option ν

variable [DecidableEq κ] (handle : Option ν → ι → Except ε ν) (refresh : β → ν → ν)

/-- One event. -/
def step (s : Store κ ν) : Event κ ι β → Except ε (Store κ ν)
  | .one k i => do
    let v ← handle (s k) i
    .ok (Function.update s k (some v))
  | .all b => .ok fun k => (s k).map (refresh b)

/-- One event, as the key that it concerns sees it. -/
def entryStep (v : Option ν) : Event κ ι β → Except ε (Option ν)
  | .one _ i => do
    let v ← handle v i
    .ok (some v)
  | .all b => .ok (v.map (refresh b))

/-- The event is for this key, or for all. -/
def Event.concerns (k : κ) : Event κ ι β → Bool
  | .one k' _ => k' = k
  | .all _ => true

/-- The events that concern a key. -/
def concerning (k : κ) (events : List (Event κ ι β)) : List (Event κ ι β) := events.filter (Event.concerns k)

@[simp] theorem concerning_append (k : κ) (xs ys : List (Event κ ι β)) :
    concerning k (xs ++ ys) = concerning k xs ++ concerning k ys := List.filter_append ..

theorem concerning_cons_of_concerns {k : κ} {e : Event κ ι β} (h : e.concerns k = true)
    (events : List (Event κ ι β)) : concerning k (e :: events) = e :: concerning k events :=
  List.filter_cons_of_pos h

theorem concerning_cons_of_not {k : κ} {e : Event κ ι β} (h : e.concerns k = false)
    (events : List (Event κ ι β)) : concerning k (e :: events) = concerning k events :=
  List.filter_cons_of_neg (by simp [h])

variable {handle refresh} {s s' : Store κ ν} {e : Event κ ι β} {events : List (Event κ ι β)}

/-! ## One event -/

/-- A key that the event does not concern keeps its value. -/
theorem step_other {k : κ} (hk : e.concerns k = false) (h : step handle refresh s e = .ok s') : s' k = s k := by
  cases e with
  | one k' i =>
    obtain ⟨v, -, hv⟩ := bind_eq_ok.1 h
    obtain rfl := Except.ok.inj hv
    have hne : k ≠ k' := by
      intro heq
      simp [Event.concerns, heq] at hk
    exact Function.update_of_ne hne _ _
  | all b => cases hk

/-- A key that it concerns sees it. -/
theorem step_concerned {k : κ} (hk : e.concerns k = true) (h : step handle refresh s e = .ok s') :
    entryStep handle refresh (s k) e = .ok (s' k) := by
  cases e with
  | one k' i =>
    obtain rfl : k' = k := of_decide_eq_true hk
    obtain ⟨v, hv, hs⟩ := bind_eq_ok.1 h
    obtain rfl := Except.ok.inj hs
    rw [Function.update_self]
    exact bind_eq_ok.2 ⟨v, hv, rfl⟩
  | all b =>
    obtain rfl := Except.ok.inj h
    rfl

/-- An event returns if it does for the keys that it concerns. -/
theorem exists_step (h : ∀ k, e.concerns k = true → ∃ v, entryStep handle refresh (s k) e = .ok v) :
    ∃ s', step handle refresh s e = .ok s' := by
  cases e with
  | one k i =>
    obtain ⟨w, hw⟩ := h k (decide_eq_true rfl)
    obtain ⟨v, hv, -⟩ := bind_eq_ok.1 hw
    exact ⟨_, bind_eq_ok.2 ⟨v, hv, rfl⟩⟩
  | all b => exact ⟨_, rfl⟩

/-! ## Runs -/

/-- **Each key has its own history**: what becomes of it is what the events that
concern it make of the value it had. -/
theorem run_at (h : run (step handle refresh) s events = .ok s') (k : κ) :
    run (entryStep handle refresh) (s k) (concerning k events) = .ok (s' k) := by
  induction events generalizing s with
  | nil =>
    obtain rfl := Except.ok.inj h
    rfl
  | cons e events ih =>
    obtain ⟨m, he, hrest⟩ := run_cons_ok.1 h
    cases hk : e.concerns k with
    | true =>
      rw [concerning_cons_of_concerns hk]
      exact run_cons_ok.2 ⟨m k, step_concerned hk he, ih hrest⟩
    | false =>
      rw [concerning_cons_of_not hk, ← step_other hk he]
      exact ih hrest

/-- **A run returns** exactly if the history of every key does. -/
theorem exists_run_iff :
    (∃ s', run (step handle refresh) s events = .ok s') ↔
      ∀ k, ∃ v, run (entryStep handle refresh) (s k) (concerning k events) = .ok v := by
  constructor
  · intro h k
    obtain ⟨s', h⟩ := h
    exact ⟨s' k, run_at h k⟩
  · intro h
    induction events generalizing s with
    | nil => exact ⟨s, rfl⟩
    | cons e events ih =>
      have hfirst : ∀ k, e.concerns k = true → ∃ v, entryStep handle refresh (s k) e = .ok v := by
        intro k hk
        obtain ⟨v, hv⟩ := h k
        rw [concerning_cons_of_concerns hk] at hv
        obtain ⟨m, hm, -⟩ := run_cons_ok.1 hv
        exact ⟨m, hm⟩
      obtain ⟨m, hm⟩ := exists_step hfirst
      have hrest : ∀ k, ∃ v, run (entryStep handle refresh) (m k) (concerning k events) = .ok v := by
        intro k
        obtain ⟨v, hv⟩ := h k
        cases hk : e.concerns k with
        | true =>
          rw [concerning_cons_of_concerns hk] at hv
          obtain ⟨w, hw, hv⟩ := run_cons_ok.1 hv
          obtain rfl : m k = w := Except.ok.inj ((step_concerned hk hm).symm.trans hw)
          exact ⟨v, hv⟩
        | false =>
          rw [concerning_cons_of_not hk] at hv
          rw [step_other hk hm]
          exact ⟨v, hv⟩
      obtain ⟨s', hs'⟩ := ih hrest
      exact ⟨s', run_cons_ok.2 ⟨m, hm, hs'⟩⟩

/-- **Confluence.** Histories that agree on every key lead to one store. -/
theorem run_congr {events' : List (Event κ ι β)} (h : ∀ k, concerning k events = concerning k events') :
    run (step handle refresh) s events = .ok s' ↔ run (step handle refresh) s events' = .ok s' := by
  have hone : ∀ {xs ys : List (Event κ ι β)}, (∀ k, concerning k xs = concerning k ys) →
      run (step handle refresh) s xs = .ok s' → run (step handle refresh) s ys = .ok s' := by
    intro xs ys hxy hxs
    obtain ⟨t, ht⟩ := exists_run_iff.2 fun k => ⟨s' k, hxy k ▸ run_at hxs k⟩
    have heq : s' = t := by
      funext k
      have hk := run_at hxs k
      rw [hxy k, run_at ht k] at hk
      exact (Except.ok.inj hk).symm
    rw [heq]
    exact ht
  exact ⟨hone h, hone fun k => (h k).symm⟩

/-! ## Inputs -/

/-- What the event for one key brings. -/
def Event.input? : Event κ ι β → Option ι
  | .one _ i => some i
  | .all _ => none

/-- What the events bring to their keys, in order. -/
def inputs (events : List (Event κ ι β)) : List ι := events.filterMap Event.input?

section

variable {ν' ι' β' : Type} {handle' : Option ν' → ι' → Except ε ν'} {refresh' : β' → ν' → ν'}
  {R : Option ν → Option ν' → Prop} {S : ι → ι' → Prop}

omit [DecidableEq κ] in
/-- **Two histories of a key**, with related inputs: a relation that inputs keep,
and that an event for all does not disturb on either side, holds in the end. -/
theorem history_rel
    (hone : ∀ v w i j v' w', R v w → S i j → handle v i = .ok v' → handle' w j = .ok w' → R (some v') (some w'))
    (hleft : ∀ v w b, R v w → R (v.map (refresh b)) w) (hright : ∀ v w b, R v w → R v (w.map (refresh' b))) :
    ∀ {xs : List (Event κ ι β)} {ys : List (Event κ ι' β')} {v v' : Option ν} {w w' : Option ν'},
      R v w → List.Forall₂ S (inputs xs) (inputs ys) → run (entryStep handle refresh) v xs = .ok v' →
      run (entryStep handle' refresh') w ys = .ok w' → R v' w'
  | [], [], v, v', w, w', hR, _, hv, hw => by
    obtain rfl := Except.ok.inj hv
    obtain rfl := Except.ok.inj hw
    exact hR
  | .all b :: xs, ys, v, v', w, w', hR, hS, hv, hw => by
    obtain ⟨m, hm, hv⟩ := run_cons_ok.1 hv
    obtain rfl := Except.ok.inj hm
    have hrest : List.Forall₂ S (inputs xs) (inputs ys) := hS
    exact history_rel hone hleft hright (hleft v w b hR) hrest hv hw
  | xs, .all b :: ys, v, v', w, w', hR, hS, hv, hw => by
    obtain ⟨m, hm, hw⟩ := run_cons_ok.1 hw
    obtain rfl := Except.ok.inj hm
    have hrest : List.Forall₂ S (inputs xs) (inputs ys) := hS
    exact history_rel hone hleft hright (hright v w b hR) hrest hv hw
  | .one _ i :: xs, .one _ j :: ys, v, v', w, w', hR, hS, hv, hw => by
    obtain ⟨_, hi, hv⟩ := run_cons_ok.1 hv
    obtain ⟨_, hj, hw⟩ := run_cons_ok.1 hw
    obtain ⟨x, hx, hi⟩ := bind_eq_ok.1 hi
    obtain ⟨y, hy, hj⟩ := bind_eq_ok.1 hj
    obtain rfl := Except.ok.inj hi
    obtain rfl := Except.ok.inj hj
    obtain ⟨hij, hrest⟩ := List.forall₂_cons.1 hS
    exact history_rel hone hleft hright (hone v w i j x y hR hij hx hy) hrest hv hw
  | [], .one _ j :: ys, v, v', w, w', hR, hS, hv, hw => by cases hS
  | .one _ i :: xs, [], v, v', w, w', hR, hS, hv, hw => by cases hS

end

end Handystats.Keyed
