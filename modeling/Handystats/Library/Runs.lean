/-
Runs of a step that may fault: calls folded over a state, stopping at the
first fault.

`run_inv` carries an invariant, which may speak of the calls made so far,
through a whole run, `run_inv_throughout` through the runs whose calls all
meet a condition; `run_rel` carries a relation between two runs of the
same calls (`run_rel_throughout` where they meet a condition), and
`run_lockstep` one that also makes them fault alike; `run_total` gives a run
from a step that never faults, `exists_run_iff` says which runs return;
`iterate_reaches` bounds the rounds of a loop; `run_refines` maps the runs of a
system to runs of a more abstract one; `mapM_ok` is for a list gone through.
-/
import Mathlib.Data.List.Forall2
import Mathlib.Data.List.Induction
import Mathlib.Logic.Function.Iterate

namespace Handystats.Runs

variable {σ τ α β ε δ : Type}

theorem bind_eq_ok {x : Except ε σ} {f : σ → Except ε τ} {b : τ} :
    (x >>= f) = .ok b ↔ ∃ a, x = .ok a ∧ f a = .ok b := by
  cases x with
  | error e => simp [bind, Except.bind]
  | ok a => simp [bind, Except.bind]

theorem bind_eq_error {x : Except ε σ} {f : σ → Except ε τ} {e : ε} :
    (x >>= f) = .error e ↔ x = .error e ∨ ∃ a, x = .ok a ∧ f a = .error e := by
  cases x with
  | error e' => simp [bind, Except.bind]
  | ok a => simp [bind, Except.bind]

/-- What is only passed on is returned where it is. -/
theorem exists_bind_ok_iff {x : Except ε σ} {f : σ → τ} :
    (∃ b, (x >>= fun a => .ok (f a)) = .ok b) ↔ ∃ a, x = .ok a := by
  cases x with
  | error e => simp [bind, Except.bind]
  | ok a => simp [bind, Except.bind]

/-- A call that returns, from its evaluation. -/
theorem exists_ok_of_toBool {x : Except ε σ} (h : x.toBool = true) : ∃ a, x = .ok a := by
  cases x with
  | error e => cases h
  | ok a => exact ⟨a, rfl⟩

/-- Whether a computation returns a `P`, by evaluation. -/
instance decidableReturns {x : Except ε σ} {P : σ → Prop} [DecidablePred P] :
    Decidable (∃ a, x = .ok a ∧ P a) :=
  match x with
  | .ok a => decidable_of_iff (P a) ⟨fun h => ⟨a, rfl, h⟩, fun ⟨_, heq, h⟩ => Except.ok.inj heq ▸ h⟩
  | .error _ => isFalse fun ⟨_, heq, _⟩ => nomatch heq

/-- Whether a computation ends with the fault `e`, by evaluation. -/
instance decidableFaults [DecidableEq ε] {x : Except ε σ} {e : ε} : Decidable (x = .error e) :=
  match x with
  | .ok _ => isFalse fun heq => nomatch heq
  | .error e' => decidable_of_iff (e' = e) ⟨congrArg Except.error, Except.error.inj⟩

/-- The state after the calls `cs`, or the first fault. -/
def run (step : σ → α → Except ε σ) (s : σ) (cs : List α) : Except ε σ :=
  cs.foldlM step s

@[simp] theorem run_nil (step : σ → α → Except ε σ) (s : σ) : run step s [] = .ok s := rfl

theorem run_cons_ok {step : σ → α → Except ε σ} {s s' : σ} {c : α} {cs : List α} :
    run step s (c :: cs) = .ok s' ↔ ∃ m, step s c = .ok m ∧ run step m cs = .ok s' := by
  simp only [run, List.foldlM_cons, bind_eq_ok]

theorem run_append_ok {step : σ → α → Except ε σ} {s s' : σ} {cs ds : List α} :
    run step s (cs ++ ds) = .ok s' ↔ ∃ m, run step s cs = .ok m ∧ run step m ds = .ok s' := by
  simp only [run, List.foldlM_append, bind_eq_ok]

theorem run_singleton_ok {step : σ → α → Except ε σ} {s s' : σ} {c : α} :
    run step s [c] = .ok s' ↔ step s c = .ok s' := by
  simp [run_cons_ok]

/-- The invariant rule, in the middle of a run. -/
theorem run_inv_append {step : σ → α → Except ε σ} {I : List α → σ → Prop}
    (hstep : ∀ pre s c s', I pre s → step s c = .ok s' → I (pre ++ [c]) s') :
    ∀ {cs pre : List α} {s s' : σ}, I pre s → run step s cs = .ok s' → I (pre ++ cs) s'
  | [], pre, s, s', hI, h => by
    simp only [run_nil, Except.ok.injEq] at h
    subst h; simpa using hI
  | c :: cs, pre, s, s', hI, h => by
    obtain ⟨m, hc, hr⟩ := run_cons_ok.1 h
    have := run_inv_append hstep (hstep pre s c m hI hc) hr
    simpa using this

/-- **Invariant rule.** What holds at the start and is kept by each call, of
the calls so far and the state they lead to, holds after every run. -/
theorem run_inv {step : σ → α → Except ε σ} {I : List α → σ → Prop}
    (hstep : ∀ pre s c s', I pre s → step s c = .ok s' → I (pre ++ [c]) s') {cs : List α} {s s' : σ}
    (h₀ : I [] s) (h : run step s cs = .ok s') : I cs s' :=
  run_inv_append hstep h₀ h

/-- Each call of the run meets `P`, of the calls before it and the state it
is made in. -/
def Throughout (step : σ → α → Except ε σ) (s : σ) (cs : List α) (P : List α → σ → α → Prop) : Prop :=
  ∀ pre c post m, cs = pre ++ c :: post → run step s pre = .ok m → P pre m c

theorem Throughout.of_append {step : σ → α → Except ε σ} {s : σ} {cs ds : List α}
    {P : List α → σ → α → Prop} (h : Throughout step s (cs ++ ds) P) : Throughout step s cs P := by
  intro pre c post m hcs hm
  exact h pre c (post ++ ds) m (by rw [hcs, List.append_assoc, List.cons_append]) hm

@[simp] theorem throughout_nil {step : σ → α → Except ε σ} {s : σ} {P : List α → σ → α → Prop} :
    Throughout step s [] P := by
  intro pre c post m hcs
  simp at hcs

theorem throughout_cons {step : σ → α → Except ε σ} {s : σ} {c : α} {cs : List α}
    {P : List α → σ → α → Prop} (hc : P [] s c)
    (hcs : ∀ m, step s c = .ok m → Throughout step m cs fun pre => P (c :: pre)) :
    Throughout step s (c :: cs) P := by
  intro pre d post m heq hm
  cases pre with
  | nil =>
    simp only [List.nil_append, List.cons.injEq] at heq
    simp only [run_nil, Except.ok.injEq] at hm
    obtain ⟨rfl, -⟩ := heq
    subst hm; exact hc
  | cons e pre =>
    simp only [List.cons_append, List.cons.injEq] at heq
    obtain ⟨rfl, rfl⟩ := heq
    obtain ⟨m', he, hm'⟩ := run_cons_ok.1 hm
    exact hcs m' he pre d post m rfl hm'

/-- Whether each call of the run meets `P`, by evaluation. -/
def meets (step : σ → α → Except ε σ) (P : σ → α → Bool) (s : σ) : List α → Bool
  | [] => true
  | c :: cs =>
    P s c && match step s c with
      | .ok m => meets step P m cs
      | .error _ => true

theorem throughout_of_meets {step : σ → α → Except ε σ} {P : σ → α → Prop} [∀ s c, Decidable (P s c)] :
    ∀ {cs : List α} {s : σ}, meets step (fun s c => decide (P s c)) s cs = true →
      Throughout step s cs fun _ s c => P s c
  | [], _, _ => throughout_nil
  | c :: cs, s, h => by
    rw [meets, Bool.and_eq_true, decide_eq_true_iff] at h
    refine throughout_cons h.1 fun m hm => throughout_of_meets ?_
    simpa only [hm] using h.2

/-- The invariant rule for the runs whose calls all meet `P`. -/
theorem run_inv_throughout {step : σ → α → Except ε σ} {I : List α → σ → Prop}
    {P : List α → σ → α → Prop}
    (hstep : ∀ pre s c s', I pre s → P pre s c → step s c = .ok s' → I (pre ++ [c]) s') {cs : List α}
    {s s' : σ} (h₀ : I [] s) (h : run step s cs = .ok s') (hP : Throughout step s cs P) : I cs s' := by
  induction cs using List.reverseRecOn generalizing s' with
  | nil =>
    simp only [run_nil, Except.ok.injEq] at h
    subst h; exact h₀
  | append_singleton pre c ih =>
    obtain ⟨m, hpre, hc⟩ := run_append_ok.1 h
    have hm := ih hpre hP.of_append
    exact hstep pre m c s' hm (hP pre c [] m rfl hpre) (run_singleton_ok.1 hc)

/-- **Two runs of the same calls.** A relation kept by each pair of steps
relates the ends of the runs. -/
theorem run_rel {step : σ → α → Except ε σ} {step' : τ → α → Except ε τ} {R : σ → τ → Prop}
    (hstep : ∀ s t c s' t', R s t → step s c = .ok s' → step' t c = .ok t' → R s' t') :
    ∀ {cs : List α} {s s' : σ} {t t' : τ}, R s t → run step s cs = .ok s' →
      run step' t cs = .ok t' → R s' t'
  | [], s, s', t, t', hR, h, h' => by
    simp only [run_nil, Except.ok.injEq] at h h'
    subst h h'; exact hR
  | c :: cs, s, s', t, t', hR, h, h' => by
    obtain ⟨m, hc, hr⟩ := run_cons_ok.1 h
    obtain ⟨m', hc', hr'⟩ := run_cons_ok.1 h'
    exact run_rel hstep (hstep s t c m m' hR hc hc') hr hr'

theorem Throughout.tail {step : σ → α → Except ε σ} {s m : σ} {c : α} {cs : List α}
    {P : List α → σ → α → Prop} (h : Throughout step s (c :: cs) P) (hc : step s c = .ok m) :
    Throughout step m cs fun pre => P (c :: pre) := by
  intro pre d post m' heq hm'
  exact h (c :: pre) d post m' (by rw [heq, List.cons_append]) (run_cons_ok.2 ⟨m, hc, hm'⟩)

/-- The same for two runs whose calls all meet `P` in the first of them. -/
theorem run_rel_throughout {step : σ → α → Except ε σ} {step' : τ → α → Except ε τ} {R : σ → τ → Prop}
    {P : σ → α → Prop}
    (hstep : ∀ s t c s' t', R s t → P s c → step s c = .ok s' → step' t c = .ok t' → R s' t') :
    ∀ {cs : List α} {s s' : σ} {t t' : τ}, R s t → Throughout step s cs (fun _ => P) →
      run step s cs = .ok s' → run step' t cs = .ok t' → R s' t'
  | [], s, s', t, t', hR, _, h, h' => by
    simp only [run_nil, Except.ok.injEq] at h h'
    subst h h'; exact hR
  | c :: cs, s, s', t, t', hR, hP, h, h' => by
    obtain ⟨m, hc, hr⟩ := run_cons_ok.1 h
    obtain ⟨m', hc', hr'⟩ := run_cons_ok.1 h'
    have hm : R m m' := hstep s t c m m' hR (hP [] c cs s rfl rfl) hc hc'
    exact run_rel_throughout hstep hm (hP.tail hc) hr hr'

/-- Two computations that fault alike or return related states. -/
def Lockstep (R : σ → τ → Prop) (x : Except ε σ) (y : Except ε τ) : Prop :=
  (∃ e, x = .error e ∧ y = .error e) ∨ ∃ s t, x = .ok s ∧ y = .ok t ∧ R s t

/-- **Lockstep simulation.** The relation may speak of the calls that are
still to come. -/
theorem run_lockstep {step : σ → α → Except ε σ} {step' : τ → α → Except ε τ}
    {R : List α → σ → τ → Prop}
    (hstep : ∀ c cs s t, R (c :: cs) s t → Lockstep (R cs) (step s c) (step' t c)) :
    ∀ {cs : List α} {s : σ} {t : τ}, R cs s t → Lockstep (R []) (run step s cs) (run step' t cs)
  | [], s, t, hR => .inr ⟨s, t, rfl, rfl, hR⟩
  | c :: cs, s, t, hR => by
    rcases hstep c cs s t hR with ⟨e, hs, ht⟩ | ⟨s', t', hs, ht, hR'⟩
    · refine .inl ⟨e, ?_, ?_⟩
      · rw [run, List.foldlM_cons, hs]; rfl
      · rw [run, List.foldlM_cons, ht]; rfl
    · have hrest := run_lockstep hstep hR'
      rw [run, run, List.foldlM_cons, List.foldlM_cons, hs, ht]
      exact hrest

/-- A step that never faults where `I` holds, and keeps `I`, never faults in
a run. -/
theorem run_total {step : σ → α → Except ε σ} {I : σ → Prop}
    (hstep : ∀ s c, I s → ∃ s', step s c = .ok s' ∧ I s') :
    ∀ (cs : List α) {s : σ}, I s → ∃ s', run step s cs = .ok s' ∧ I s'
  | [], s, hI => ⟨s, rfl, hI⟩
  | c :: cs, s, hI => by
    obtain ⟨m, hc, hm⟩ := hstep s c hI
    obtain ⟨s', hr, hs'⟩ := run_total hstep cs hm
    exact ⟨s', run_cons_ok.2 ⟨m, hc, hr⟩, hs'⟩

/-- **Runs that return.** Where, from a state with `I`, a step returns exactly
when its call meets `P`, a run returns exactly when all of its calls do. -/
theorem exists_run_iff {step : σ → α → Except ε σ} {I : σ → Prop} {P : σ → α → Prop}
    (hinv : ∀ s c s', I s → step s c = .ok s' → I s')
    (hstep : ∀ s c, I s → ((∃ s', step s c = .ok s') ↔ P s c)) :
    ∀ {cs : List α} {s : σ}, I s →
      ((∃ s', run step s cs = .ok s') ↔ Throughout step s cs fun _ => P)
  | [], s, _ => by simp
  | c :: cs, s, hI => by
    constructor
    · intro h
      obtain ⟨s', h⟩ := h
      obtain ⟨m, hc, hr⟩ := run_cons_ok.1 h
      refine throughout_cons ((hstep s c hI).1 ⟨m, hc⟩) fun m' hm' => ?_
      obtain rfl : m = m' := Except.ok.inj (hc.symm.trans hm')
      exact (exists_run_iff hinv hstep (hinv s c m hI hc)).1 ⟨s', hr⟩
    · intro h
      obtain ⟨m, hc⟩ := (hstep s c hI).2 (h [] c cs s rfl rfl)
      have hrest : Throughout step m cs fun _ => P := fun pre d post m' heq hm' =>
        h (c :: pre) d post m' (by rw [heq, List.cons_append]) (run_cons_ok.2 ⟨m, hc, hm'⟩)
      obtain ⟨s', hr⟩ := (exists_run_iff hinv hstep (hinv s c m hI hc)).2 hrest
      exact ⟨s', run_cons_ok.2 ⟨m, hc, hr⟩⟩

/-- **Progress rule.** A share `W` that each round takes one from, until it is
done, bounds the rounds. -/
theorem iterate_reaches {f : σ → σ} {I Done : σ → Prop} {W : σ → Nat → Prop}
    (hinv : ∀ s, I s → I (f s)) (hstep : ∀ s n, I s → W s (n + 1) → ¬ Done s → W (f s) n)
    (hzero : ∀ s, I s → ¬ W s 0) : ∀ {n : Nat} {s : σ}, I s → W s n → ∃ k, k < n ∧ Done (f^[k] s)
  | 0, s, hI, hW => absurd hW (hzero s hI)
  | n + 1, s, hI, hW => by
    by_cases hdone : Done s
    · exact ⟨0, Nat.succ_pos n, hdone⟩
    · obtain ⟨k, hk, hf⟩ := iterate_reaches hinv hstep hzero (hinv s hI) (hstep s n hI hW hdone)
      exact ⟨k + 1, Nat.succ_lt_succ hk, hf⟩

/-- **Approach rule.** Where a step leaves a log alone, and takes one from a
measure if it is of the kind that is counted, or puts an entry on the log that
is waited for, and the log only grows: over a run the counted steps are bounded
by the measure, or the first that the log has grown by is such an entry. -/
theorem run_approaches {γ : Type} {step : σ → α → Except ε σ} {I : σ → Prop} {log : σ → List β} {entry : γ → β}
    {measure : σ → Nat} {counted : α → Bool} {P : α → Prop}
    (hstep : ∀ s a s', I s → P a → step s a = .ok s' →
      (I s' ∧ measure s' + (counted a).toNat ≤ measure s ∧ log s' = log s) ∨
        ∃ x, log s' = log s ++ [entry x])
    (hlog : ∀ s a s', step s a = .ok s' → log s <+: log s') :
    ∀ {as : List α} {s s' : σ}, I s → (∀ a ∈ as, P a) → run step s as = .ok s' →
      (I s' ∧ measure s' + as.countP counted ≤ measure s ∧ log s' = log s) ∨
        ∃ x, log s ++ [entry x] <+: log s'
  | [], s, s', hI, _, hrun => by
    cases hrun
    exact .inl ⟨hI, Nat.le_refl _, rfl⟩
  | a :: as, s, s', hI, hP, hrun => by
    obtain ⟨m, hs, hrun⟩ := run_cons_ok.1 hrun
    rcases hstep s a m hI (hP a (by simp)) hs with ⟨hI', hle, heq⟩ | ⟨x, hx⟩
    · rcases run_approaches hstep hlog hI' (fun b hb => hP b (by simp [hb])) hrun with ⟨hI'', hle', heq'⟩ | hx
      · refine .inl ⟨hI'', ?_, heq'.trans heq⟩
        rw [List.countP_cons]
        cases hcounted : counted a <;> simp [hcounted] at hle ⊢ <;> omega
      · exact .inr (heq ▸ hx)
    · refine .inr ⟨x, hx ▸ ?_⟩
      exact run_inv (I := fun _ t => log m <+: log t) (fun _ _ _ _ hpre hs => hpre.trans (hlog _ _ _ hs))
        List.prefix_rfl hrun

/-! ## Ways to end -/

/-- The computation returns a `P`, or ends with a fault that is `Q`. -/
def Ends (P : σ → Prop) (Q : ε → Prop) : Except ε σ → Prop
  | .ok a => P a
  | .error e => Q e

namespace Ends

variable {P P' : σ → Prop} {R : τ → Prop} {Q Q' : ε → Prop} {x : Except ε σ}

theorem mono (h : Ends P Q x) (hP : ∀ a, P a → P' a) : Ends P' Q x := by
  cases x with
  | ok a => exact hP a h
  | error e => exact h

theorem mono_fault (h : Ends P Q x) (hQ : ∀ e, Q e → Q' e) : Ends P Q' x := by
  cases x with
  | ok a => exact h
  | error e => exact hQ e h

theorem bind {f : σ → Except ε τ} (hx : Ends P Q x) (hf : ∀ a, P a → Ends R Q (f a)) :
    Ends R Q (x >>= f) := by
  cases x with
  | ok a => exact hf a hx
  | error e => exact hx

theorem of_ok (h : Ends P Q x) {a : σ} (ha : x = .ok a) : P a := by
  subst ha
  exact h

theorem of_error (h : Ends P Q x) {e : ε} (he : x = .error e) : Q e := by
  subst he
  exact h

end Ends

/-- **Faults of a run.** Where each step keeps `I` or ends with a fault that is
`Q`, so does every run. -/
theorem run_ends {step : σ → α → Except ε σ} {I : σ → Prop} {Q : ε → Prop}
    (hstep : ∀ s c, I s → Ends I Q (step s c)) :
    ∀ (cs : List α) {s : σ}, I s → Ends I Q (run step s cs)
  | [], _, hI => hI
  | c :: cs, s, hI => by
    rw [run, List.foldlM_cons]
    exact (hstep s c hI).bind fun _ hm => run_ends hstep cs hm

/-- **Refinement.** Where each step is a run of the abstract system, of any
length, so is every run. -/
theorem run_refines {step : σ → α → Except ε σ} {step' : τ → β → Except δ τ} (abs : σ → τ)
    {I : σ → Prop}
    (hstep : ∀ s c s', I s → step s c = .ok s' → I s' ∧ ∃ ds, run step' (abs s) ds = .ok (abs s')) :
    ∀ {cs : List α} {s s' : σ}, I s → run step s cs = .ok s' →
      I s' ∧ ∃ ds, run step' (abs s) ds = .ok (abs s')
  | [], s, s', hI, h => by
    simp only [run_nil, Except.ok.injEq] at h
    subst h
    exact ⟨hI, [], rfl⟩
  | c :: cs, s, s', hI, h => by
    obtain ⟨m, hc, hr⟩ := run_cons_ok.1 h
    obtain ⟨hm, ds, hds⟩ := hstep s c m hI hc
    obtain ⟨hI', es, hes⟩ := run_refines abs hstep hm hr
    exact ⟨hI', ds ++ es, run_append_ok.2 ⟨_, hds, hes⟩⟩

/-! ## One result for each -/

/-- A list is gone through exactly if each element has a result, and the results
are theirs, in order. -/
theorem mapM_ok {f : σ → Except ε τ} {xs : List σ} {ys : List τ} :
    xs.mapM f = .ok ys ↔ List.Forall₂ (fun x y => f x = .ok y) xs ys := by
  induction xs generalizing ys with
  | nil =>
    rw [List.mapM_nil, List.forall₂_nil_left_iff]
    exact ⟨fun h => (Except.ok.inj h).symm, fun h => h ▸ rfl⟩
  | cons x xs ih =>
    rw [List.mapM_cons, bind_eq_ok]
    constructor
    · intro h
      obtain ⟨y, hy, h⟩ := h
      obtain ⟨rest, hrest, h⟩ := bind_eq_ok.1 h
      obtain rfl := Except.ok.inj h
      exact .cons hy (ih.1 hrest)
    · intro h
      obtain ⟨y, rest, hy, hrest, rfl⟩ := List.forall₂_cons_left_iff.1 h
      exact ⟨y, hy, bind_eq_ok.2 ⟨rest, ih.2 hrest, rfl⟩⟩

theorem exists_mapM_iff {f : σ → Except ε τ} {xs : List σ} :
    (∃ ys, xs.mapM f = .ok ys) ↔ ∀ x ∈ xs, ∃ y, f x = .ok y := by
  induction xs with
  | nil =>
    refine ⟨fun _ x hx => ?_, fun _ => ⟨[], rfl⟩⟩
    cases hx
  | cons x xs ih =>
    rw [List.forall_mem_cons, ← ih]
    constructor
    · intro h
      obtain ⟨ys, h⟩ := h
      obtain ⟨y, rest, hy, hrest, -⟩ := List.forall₂_cons_left_iff.1 (mapM_ok.1 h)
      exact ⟨⟨y, hy⟩, rest, mapM_ok.2 hrest⟩
    · intro h
      obtain ⟨⟨y, hy⟩, rest, hrest⟩ := h
      exact ⟨y :: rest, mapM_ok.2 (.cons hy (mapM_ok.1 hrest))⟩

end Handystats.Runs
