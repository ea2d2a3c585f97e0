/-
Computations on a state that may end in a fault.

The state is left behind either way, as an object is that a thrown exception
has interrupted the writing of. `Keeps` says what part of the state a
computation leaves alone; it has a rule for each way a computation is built.
-/

namespace Handystats

/-- A computation on a state `σ`: its result, or the fault it ends with, and
the state it leaves. -/
def Effect (ε σ α : Type) : Type := σ → Except ε α × σ

namespace Effect

variable {ε σ τ α β γ : Type}

instance : Monad (Effect ε σ) where
  pure a := fun s => (.ok a, s)
  bind x f := fun s =>
    match x s with
    | (.ok a, s') => f a s'
    | (.error e, s') => (.error e, s')

/-- Writes the state. -/
def modify (f : σ → σ) : Effect ε σ Unit := fun s => (.ok (), f s)

/-- A computation that has nothing to do with the state. -/
def ofExcept (x : Except ε α) : Effect ε σ α := fun s => (x, s)

/-- A computation on a part of the state. -/
def zoom (get : σ → τ) (set : σ → τ → σ) (x : Effect ε τ α) : Effect ε σ α := fun s =>
  ((x (get s)).1, set s (x (get s)).2)

@[simp] theorem pure_run (a : α) (s : σ) : (pure a : Effect ε σ α) s = (.ok a, s) := rfl

@[simp] theorem modify_run (f : σ → σ) (s : σ) : (modify f : Effect ε σ Unit) s = (.ok (), f s) := rfl

@[simp] theorem ofExcept_run (x : Except ε α) (s : σ) : (ofExcept x : Effect ε σ α) s = (x, s) := rfl

theorem bind_of_ok {x : Effect ε σ α} {f : α → Effect ε σ β} {s s' : σ} {a : α}
    (h : x s = (.ok a, s')) : (x >>= f) s = f a s' := by
  change (match x s with
    | (.ok a, s') => f a s'
    | (.error e, s') => (.error e, s')) = _
  rw [h]

theorem bind_of_error {x : Effect ε σ α} {f : α → Effect ε σ β} {s s' : σ} {e : ε}
    (h : x s = (.error e, s')) : (x >>= f) s = (.error e, s') := by
  change (match x s with
    | (.ok a, s') => f a s'
    | (.error e, s') => (.error e, s')) = _
  rw [h]

theorem bind_run_ok {x : Effect ε σ α} {f : α → Effect ε σ β} {s s' : σ} {b : β} :
    (x >>= f) s = (.ok b, s') ↔ ∃ a s₁, x s = (.ok a, s₁) ∧ f a s₁ = (.ok b, s') := by
  rcases h : x s with ⟨e | a, s₁⟩
  · simp [bind_of_error h]
  · rw [bind_of_ok h]
    refine ⟨fun h => ⟨a, s₁, rfl, h⟩, ?_⟩
    intro h
    obtain ⟨a', s', ⟨⟩, h⟩ := h
    exact h

/-! ## What a computation leaves alone -/

/-- The part `p` of the state is what it was, however the computation ends. -/
def Keeps (p : σ → γ) (x : Effect ε σ α) : Prop := ∀ s, p (x s).2 = p s

variable {p : σ → γ}

theorem keeps_pure (a : α) : Keeps p (pure a : Effect ε σ α) := fun _ => rfl

theorem keeps_ofExcept (x : Except ε α) : Keeps p (ofExcept x : Effect ε σ α) := fun _ => rfl

theorem keeps_modify {f : σ → σ} (h : ∀ s, p (f s) = p s) : Keeps p (modify f : Effect ε σ Unit) := h

theorem keeps_zoom {get : σ → τ} {set : σ → τ → σ} (x : Effect ε τ α)
    (h : ∀ s t, p (set s t) = p s) : Keeps p (zoom get set x) := fun s => h s _

theorem Keeps.bind {x : Effect ε σ α} {f : α → Effect ε σ β} (hx : Keeps p x)
    (hf : ∀ a, Keeps p (f a)) : Keeps p (x >>= f) := by
  intro s
  have h := hx s
  rcases hs : x s with ⟨e | a, s₁⟩ <;> rw [hs] at h
  · rw [bind_of_error hs]
    exact h
  · rw [bind_of_ok hs]
    exact (hf a s₁).trans h

/-- What is kept is kept by a run that returns. -/
theorem Keeps.of_run {x : Effect ε σ α} (h : Keeps p x) {s s' : σ} {r : Except ε α}
    (hs : x s = (r, s')) : p s' = p s := by
  have := h s
  rwa [hs] at this

/-! ## What a computation makes of the state -/

/-- The computation returns and changes the state by `f` if `valid`, and
otherwise ends in a fault, whatever the state is. -/
def Yields (valid : Prop) (f : σ → σ) (x : Effect ε σ Unit) : Prop :=
  ∀ s, (valid ∧ x s = (.ok (), f s)) ∨ (¬ valid ∧ ∃ e s', x s = (.error e, s'))

section

variable {valid valid' : Prop} {f f' g : σ → σ} {x y : Effect ε σ Unit}

theorem yields_pure : Yields True id (pure () : Effect ε σ Unit) := fun _ => .inl ⟨trivial, rfl⟩

theorem yields_modify (f : σ → σ) : Yields True f (modify f : Effect ε σ Unit) :=
  fun _ => .inl ⟨trivial, rfl⟩

theorem yields_of_error {e : ε} (h : ∀ s, ∃ s', x s = (.error e, s')) : Yields False f x :=
  fun s => .inr ⟨id, e, h s⟩

theorem Yields.congr (h : Yields valid f x) (hvalid : valid ↔ valid') (hf : f = f') : Yields valid' f' x := by
  subst hf
  exact fun s => (h s).imp (And.imp_left hvalid.1) (And.imp_left fun hn hv => hn (hvalid.2 hv))

theorem Yields.ofExcept_ok {a : α} {k : α → Effect ε σ Unit} (h : Yields valid f (k a)) :
    Yields valid f (ofExcept (.ok a) >>= k) := h

/-- What a run that returns has made of the state. -/
theorem Yields.of_ok (h : Yields valid f x) {s s' : σ} (hs : x s = (.ok (), s')) : s' = f s := by
  rcases h s with ⟨-, hf⟩ | ⟨-, e, t, herror⟩
  · exact (Prod.mk.inj (hs.symm.trans hf)).2
  · rw [hs] at herror
    cases herror

/-- One after the other. -/
theorem Yields.bind (hx : Yields valid f x) (hy : Yields valid' g y) :
    Yields (valid ∧ valid') (g ∘ f) (x >>= fun _ => y) := by
  intro s
  rcases hx s with ⟨hv, hs⟩ | ⟨hv, e, s', hs⟩
  · rw [bind_of_ok hs]
    rcases hy (f s) with ⟨hv', hs'⟩ | ⟨hv', e, s', hs'⟩
    · exact .inl ⟨⟨hv, hv'⟩, hs'⟩
    · exact .inr ⟨fun h => hv' h.2, e, s', hs'⟩
  · rw [bind_of_error hs]
    exact .inr ⟨fun h => hv h.1, e, s', rfl⟩

/-- On a part of the state. -/
theorem Yields.zoom {y : Effect ε τ Unit} {f : τ → τ} {get : σ → τ} {set : σ → τ → σ}
    (h : Yields valid f y) : Yields valid (fun s => set s (f (get s))) (zoom get set y) := by
  intro s
  rcases h (get s) with ⟨hv, hs⟩ | ⟨hv, e, t, hs⟩
  · exact .inl ⟨hv, by rw [Effect.zoom, hs]⟩
  · exact .inr ⟨hv, e, set s t, by rw [Effect.zoom, hs]⟩

end

end Effect

end Handystats
