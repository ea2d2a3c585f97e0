/-
Maps that are filled by insertions that leave a key which is there alone, as
`std::map::insert` does: of several values for one key the first is kept.
-/
import Mathlib.Data.List.AList
import Mathlib.Data.List.Basic

namespace Handystats.FirstInsert

variable {κ ν : Type} [DecidableEq κ]

/-- A value for a key that has none. -/
def insertNew (m : AList fun _ : κ => ν) (k : κ) (v : ν) : AList fun _ : κ => ν :=
  if k ∈ m then m else m.insert k v

/-- One value after the other. -/
def insertAll (m : AList fun _ : κ => ν) (entries : List (κ × ν)) : AList fun _ : κ => ν :=
  entries.foldl (fun m entry => insertNew m entry.1 entry.2) m

theorem lookup_insertNew (m : AList fun _ : κ => ν) (k : κ) (v : ν) (k' : κ) :
    (insertNew m k v).lookup k' = (m.lookup k').or (if k' = k then some v else none) := by
  unfold insertNew
  by_cases hk : k' = k
  · subst hk
    rw [if_pos rfl]
    split_ifs with hm
    · obtain ⟨w, hw⟩ := Option.isSome_iff_exists.1 (AList.lookup_isSome.2 hm)
      rw [hw, Option.some_or]
    · rw [AList.lookup_insert, AList.lookup_eq_none.2 hm, Option.none_or]
  · rw [if_neg hk, Option.or_none]
    split_ifs
    · rfl
    · exact AList.lookup_insert_ne hk

/-- What a key has after all of them: what it had, or else the first of its
values. -/
theorem lookup_insertAll (m : AList fun _ : κ => ν) (entries : List (κ × ν)) (k : κ) :
    (insertAll m entries).lookup k = (m.lookup k).or (entries.lookup k) := by
  induction entries generalizing m with
  | nil => rw [List.lookup_nil, Option.or_none]; rfl
  | cons entry entries ih =>
    have hcons : insertAll m (entry :: entries) = insertAll (insertNew m entry.1 entry.2) entries := rfl
    rw [hcons, ih, lookup_insertNew, Option.or_assoc]
    by_cases hk : k = entry.1
    · rw [if_pos hk, Option.some_or, List.lookup_cons, beq_iff_eq.2 hk]
    · rw [if_neg hk, Option.none_or, List.lookup_cons, beq_eq_false_iff_ne.2 hk]

theorem mem_of_lookup {entries : List (κ × ν)} {k : κ} {v : ν} (h : entries.lookup k = some v) :
    (k, v) ∈ entries := by
  obtain ⟨before, after, rfl, -⟩ := List.lookup_eq_some_iff.1 h
  simp

/-- A list of values of distinct keys, filtered value by value. -/
theorem lookup_filterMap {α : Type} (f : α → Option ν) (m : AList fun _ : κ => α) (k : κ) :
    (m.entries.filterMap fun entry => (f entry.2).map fun v => (entry.1, v)).lookup k =
      (m.lookup k).bind f := by
  obtain ⟨entries, hnodup⟩ := m
  change _ = (entries.dlookup k).bind f
  induction entries with
  | nil => rfl
  | cons entry entries ih =>
    obtain ⟨k', a⟩ := entry
    obtain ⟨hnew, hrest⟩ := List.nodupKeys_cons.1 hnodup
    have ih := ih hrest
    by_cases hk : k = k'
    · subst hk
      rw [List.dlookup_cons_eq, Option.bind_some]
      cases hf : f a with
      | none =>
        rw [List.filterMap_cons_none (by simp [hf]), ih, List.dlookup_eq_none.2 hnew, Option.bind_none]
      | some v =>
        rw [List.filterMap_cons_some (b := (k, v)) (by simp [hf]), List.lookup_cons_self]
    · rw [List.dlookup_cons_ne _ _ hk, ← ih]
      cases hf : f a with
      | none => rw [List.filterMap_cons_none (by simp [hf])]
      | some v =>
        rw [List.filterMap_cons_some (b := (k', v)) (by simp [hf]), List.lookup_cons, beq_eq_false_iff_ne.2 hk]

end Handystats.FirstInsert
