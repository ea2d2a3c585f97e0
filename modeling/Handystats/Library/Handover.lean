/-
Items on their way to a store: each is made once, is in one party's hands until
that party hands it over, and is handed over once.

`make` and `handOver` are what can happen; with nothing in anybody's hands the
store has exactly what was made. `Ordered` says the same of the order, party by
party, and allows for items that are dropped on the way.
-/
import Mathlib.Data.List.Count
import Mathlib.Data.List.Nodup
import Mathlib.Data.List.Perm.Basic
import Mathlib.Logic.Function.Basic

namespace Handystats.Handover

variable {P M : Type} {hold : P → Option M} {made store : List M}

/-- Who has what in hand, what was made and what was handed over. -/
structure Placed (hold : P → Option M) (made store : List M) : Prop where
  made_nodup : made.Nodup
  store_nodup : store.Nodup
  store_made : ∀ m ∈ store, m ∈ made
  held_made : ∀ p m, hold p = some m → m ∈ made
  held_out : ∀ p m, hold p = some m → m ∉ store
  unique : ∀ p q m, hold p = some m → hold q = some m → p = q
  cover : ∀ m ∈ made, m ∈ store ∨ ∃ p, hold p = some m

theorem placed_empty : Placed (fun _ : P => (none : Option M)) [] [] where
  made_nodup := List.nodup_nil
  store_nodup := List.nodup_nil
  store_made := fun _ h => h
  held_made := fun _ _ h => by cases h
  held_out := fun _ _ h => by cases h
  unique := fun _ _ _ h => by cases h
  cover := fun _ h => by cases h

variable [DecidableEq P] {p : P} {m : M}

/-- A party with empty hands makes an item. -/
theorem Placed.make (h : Placed hold made store) (hp : hold p = none) (hm : m ∉ made) :
    Placed (Function.update hold p (some m)) (made ++ [m]) store := by
  have hstore : m ∉ store := fun hin => hm (h.store_made m hin)
  refine ⟨?_, h.store_nodup, fun x hx => ?_, fun q x hq => ?_, fun q x hq => ?_, fun q r x hq hr => ?_,
    fun x hx => ?_⟩
  · rw [← List.concat_eq_append]
    exact h.made_nodup.concat hm
  · exact List.mem_append_left _ (h.store_made x hx)
  · by_cases hqp : q = p
    · rw [hqp, Function.update_self, Option.some.injEq] at hq
      simp [hq]
    · rw [Function.update_of_ne hqp] at hq
      exact List.mem_append_left _ (h.held_made q x hq)
  · by_cases hqp : q = p
    · rw [hqp, Function.update_self, Option.some.injEq] at hq
      exact hq ▸ hstore
    · rw [Function.update_of_ne hqp] at hq
      exact h.held_out q x hq
  · have hother : ∀ {a}, a ≠ p → hold a = some x → x ≠ m := fun ha hx heq =>
      hm (heq ▸ h.held_made _ x hx)
    by_cases hqp : q = p
    · by_cases hrp : r = p
      · rw [hqp, hrp]
      · rw [hqp, Function.update_self, Option.some.injEq] at hq
        rw [Function.update_of_ne hrp] at hr
        exact absurd hq.symm (hother hrp hr)
    · by_cases hrp : r = p
      · rw [Function.update_of_ne hqp] at hq
        rw [hrp, Function.update_self, Option.some.injEq] at hr
        exact absurd hr.symm (hother hqp hq)
      · rw [Function.update_of_ne hqp] at hq
        rw [Function.update_of_ne hrp] at hr
        exact h.unique q r x hq hr
  · rcases List.mem_append.1 hx with hx | hx
    · refine (h.cover x hx).imp_right fun ⟨q, hq⟩ => ⟨q, ?_⟩
      rw [Function.update_of_ne]
      · exact hq
      · intro hqp
        rw [hqp, hp] at hq
        cases hq
    · exact .inr ⟨p, by rw [Function.update_self, List.mem_singleton.1 hx]⟩

/-- A party hands its item over. -/
theorem Placed.handOver (h : Placed hold made store) (hp : hold p = some m) :
    Placed (Function.update hold p none) made (store ++ [m]) := by
  have hrest : ∀ {q x}, Function.update hold p none q = some x → q ≠ p ∧ hold q = some x := by
    intro q x hq
    by_cases hqp : q = p
    · rw [hqp, Function.update_self] at hq
      cases hq
    · rw [Function.update_of_ne hqp] at hq
      exact ⟨hqp, hq⟩
  refine ⟨h.made_nodup, ?_, fun x hx => ?_, fun q x hq => ?_, fun q x hq => ?_, fun q r x hq hr => ?_,
    fun x hx => ?_⟩
  · rw [← List.concat_eq_append]
    exact h.store_nodup.concat (h.held_out p m hp)
  · rcases List.mem_append.1 hx with hx | hx
    · exact h.store_made x hx
    · rw [List.mem_singleton.1 hx]
      exact h.held_made p m hp
  · exact h.held_made q x (hrest hq).2
  · obtain ⟨hqp, hq⟩ := hrest hq
    rw [List.mem_append, List.mem_singleton, not_or]
    refine ⟨h.held_out q x hq, fun heq => hqp ?_⟩
    exact h.unique q p x hq (heq ▸ hp)
  · exact h.unique q r x (hrest hq).2 (hrest hr).2
  · rcases h.cover x hx with hx | ⟨q, hq⟩
    · exact .inl (List.mem_append_left _ hx)
    · by_cases hqp : q = p
      · rw [hqp, hp, Option.some.injEq] at hq
        exact .inl (by simp [hq])
      · exact .inr ⟨q, by rw [Function.update_of_ne hqp, hq]⟩

omit [DecidableEq P] in
/-- **Everything made has been handed over**, once nobody has anything in
hand. -/
theorem Placed.perm (h : Placed hold made store) (hnone : ∀ p, hold p = none) : made.Perm store := by
  refine (List.perm_ext_iff_of_nodup h.made_nodup h.store_nodup).2 fun x => ⟨fun hx => ?_, h.store_made x⟩
  refine (h.cover x hx).resolve_right ?_
  intro h
  obtain ⟨p, hp⟩ := h
  rw [hnone p] at hp
  cases hp

/-! ## The order of each party's items -/

/-- Of the items that a party made, the store has some, in the order in which
they were made; what the party has in hand comes after them. -/
structure Ordered [DecidableEq M] (hold : P → Option M) (madeBy : P → List M) (store : List M) : Prop where
  separate : ∀ p q m, m ∈ madeBy p → m ∈ madeBy q → p = q
  store_made : ∀ m ∈ store, ∃ p, m ∈ madeBy p
  order : ∀ p, (store.filter (· ∈ madeBy p) ++ (hold p).toList).Sublist (madeBy p)

variable [DecidableEq M] {madeBy : P → List M} {hold' : P → Option M}

omit [DecidableEq P] in
theorem ordered_empty : Ordered (fun _ : P => (none : Option M)) (fun _ => []) [] where
  separate := fun _ _ _ h => by cases h
  store_made := fun _ h => by cases h
  order := fun _ => List.Sublist.refl _

omit [DecidableEq P] in
theorem Ordered.held_made (h : Ordered hold madeBy store) (hp : hold p = some m) : m ∈ madeBy p := by
  refine (h.order p).subset ?_
  simp [hp]

omit [DecidableEq P] in
/-- Items are dropped. -/
theorem Ordered.drop (h : Ordered hold madeBy store) (hhold : ∀ p, hold' p = none ∨ hold' p = hold p) :
    Ordered hold' madeBy store := by
  refine ⟨h.separate, h.store_made, fun p => ?_⟩
  rcases hhold p with hnone | hsame
  · rw [hnone, Option.toList_none, List.append_nil]
    exact (List.sublist_append_left _ _).trans (h.order p)
  · rw [hsame]
    exact h.order p

/-- A party with empty hands makes an item. -/
theorem Ordered.make (h : Ordered hold madeBy store) (hp : hold p = none) (hm : ∀ q, m ∉ madeBy q) :
    Ordered (Function.update hold p (some m)) (Function.update madeBy p (madeBy p ++ [m])) store := by
  have hmade : ∀ {q x}, x ∈ Function.update madeBy p (madeBy p ++ [m]) q → x ∈ madeBy q ∨ (q = p ∧ x = m) := by
    intro q x hx
    by_cases hqp : q = p
    · subst hqp
      simpa using hx
    · rw [Function.update_of_ne hqp] at hx
      exact .inl hx
  refine ⟨fun q r x hq hr => ?_, fun x hx => ?_, fun q => ?_⟩
  · rcases hmade hq with hq' | ⟨hqp, hx⟩
    · rcases hmade hr with hr' | ⟨-, hx⟩
      · exact h.separate q r x hq' hr'
      · exact absurd (hx ▸ hq') (hm q)
    · rcases hmade hr with hr' | ⟨hrp, -⟩
      · exact absurd (hx ▸ hr') (hm r)
      · rw [hqp, hrp]
  · obtain ⟨q, hq⟩ := h.store_made x hx
    refine ⟨q, ?_⟩
    by_cases hqp : q = p
    · subst hqp
      simp [hq]
    · rwa [Function.update_of_ne hqp]
  · by_cases hqp : q = p
    · subst hqp
      have hnone := h.order q
      rw [hp, Option.toList_none, List.append_nil] at hnone
      have hfilter : store.filter (· ∈ madeBy q ++ [m]) = store.filter (· ∈ madeBy q) := by
        refine List.filter_congr fun x hx => ?_
        obtain ⟨r, hr⟩ := h.store_made x hx
        have hne : x ≠ m := fun heq => hm r (heq ▸ hr)
        simp [hne]
      rw [Function.update_self, Function.update_self, hfilter, Option.toList_some]
      exact hnone.append_right [m]
    · rw [Function.update_of_ne hqp, Function.update_of_ne hqp]
      exact h.order q

/-- A party hands its item over. -/
theorem Ordered.handOver (h : Ordered hold madeBy store) (hp : hold p = some m) :
    Ordered (Function.update hold p none) madeBy (store ++ [m]) := by
  have hm := h.held_made hp
  refine ⟨h.separate, fun x hx => ?_, fun q => ?_⟩
  · rcases List.mem_append.1 hx with hx | hx
    · exact h.store_made x hx
    · rw [List.mem_singleton.1 hx]
      exact ⟨p, hm⟩
  · have horder := h.order q
    by_cases hqp : q = p
    · subst hqp
      rw [hp, Option.toList_some] at horder
      simpa [hm] using horder
    · have hout : m ∉ madeBy q := fun hq => hqp (h.separate q p m hq hm)
      rw [Function.update_of_ne hqp]
      simpa [hout] using horder

omit [DecidableEq P] in
/-- Nothing is handed over twice that is made once. -/
theorem Ordered.nodup (h : Ordered hold madeBy store) (hmade : ∀ p, (madeBy p).Nodup) : store.Nodup := by
  refine List.nodup_iff_count_le_one.2 fun m => ?_
  by_cases hm : m ∈ store
  · obtain ⟨p, hp⟩ := h.store_made m hm
    have hsublist := (List.sublist_append_left _ _).trans (h.order p)
    calc store.count m = (store.filter (· ∈ madeBy p)).count m := by
          rw [List.count_filter (by simpa using hp)]
      _ ≤ (madeBy p).count m := hsublist.count_le m
      _ ≤ 1 := List.nodup_iff_count_le_one.1 (hmade p) m
  · rw [List.count_eq_zero_of_not_mem hm]
    exact Nat.zero_le 1

end Handystats.Handover
