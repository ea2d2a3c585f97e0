/-
Records written field by field, where some fields are left out.

A section writes the values of a few keys, or fails, and is asked only if it is
shown. What is written can be read back key by key (`lookup_write`), and is
written exactly if every section that is shown can be (`exists_write_iff`).
-/
import Mathlib.Data.List.Nodup
import Handystats.Library.Runs

namespace Handystats.OptionalFields

open Runs

variable {ε κ ν : Type}

/-- A few keys and what is written for them. -/
structure Section (ε κ ν : Type) where
  shown : Bool
  keys : List κ
  members : Except ε (List (κ × ν))

/-- What is written, section by section. -/
def write : List (Section ε κ ν) → Except ε (List (κ × ν))
  | [] => .ok []
  | sec :: sections => do
    let members ← (if sec.shown then sec.members else .ok [])
    let rest ← write sections
    .ok (members ++ rest)

/-- Each section writes its own keys, and no two share one. -/
structure Proper (sections : List (Section ε κ ν)) : Prop where
  keys : ∀ sec ∈ sections, ∀ members, sec.members = .ok members → members.map Prod.fst = sec.keys
  apart : (sections.flatMap Section.keys).Nodup

theorem Proper.tail {sec : Section ε κ ν} {sections : List (Section ε κ ν)} (h : Proper (sec :: sections)) :
    Proper sections where
  keys := fun s hs => h.keys s (List.mem_cons_of_mem _ hs)
  apart := (List.nodup_append'.1 h.apart).2.1

/-- **It is written** exactly if every section that is shown can be. -/
theorem exists_write_iff {sections : List (Section ε κ ν)} :
    (∃ members, write sections = .ok members) ↔
      ∀ sec ∈ sections, sec.shown = true → ∃ members, sec.members = .ok members := by
  induction sections with
  | nil =>
    refine ⟨fun _ sec hsec => ?_, fun _ => ⟨[], rfl⟩⟩
    cases hsec
  | cons sec sections ih =>
    constructor
    · intro h s hs hshown
      obtain ⟨members, h⟩ := h
      obtain ⟨first, hfirst, h⟩ := bind_eq_ok.1 h
      obtain ⟨rest, hrest, -⟩ := bind_eq_ok.1 h
      rcases List.mem_cons.1 hs with rfl | hs
      · rw [if_pos hshown] at hfirst
        exact ⟨first, hfirst⟩
      · exact ih.1 ⟨rest, hrest⟩ s hs hshown
    · intro h
      obtain ⟨rest, hrest⟩ := ih.2 fun s hs => h s (List.mem_cons_of_mem _ hs)
      have hfirst : ∃ members, (if sec.shown then sec.members else .ok []) = .ok members := by
        split_ifs with hshown
        · exact h sec (List.mem_cons_self ..) hshown
        · exact ⟨[], rfl⟩
      obtain ⟨first, hfirst⟩ := hfirst
      exact ⟨first ++ rest, bind_eq_ok.2 ⟨first, hfirst, bind_eq_ok.2 ⟨rest, hrest, rfl⟩⟩⟩

variable [BEq κ] [LawfulBEq κ]

theorem lookup_eq_none {members : List (κ × ν)} {k : κ} (h : k ∉ members.map Prod.fst) : members.lookup k = none := by
  rw [List.lookup_eq_none_iff]
  intro entry hentry
  rw [bne_iff_ne]
  intro heq
  exact h (heq ▸ List.mem_map_of_mem hentry)

theorem lookup_isSome {members : List (κ × ν)} {k : κ} (h : k ∈ members.map Prod.fst) :
    ∃ v, members.lookup k = some v := by
  cases hlookup : members.lookup k with
  | some v => exact ⟨v, rfl⟩
  | none =>
    obtain ⟨entry, hentry, rfl⟩ := List.mem_map.1 h
    have hne := List.lookup_eq_none_iff.1 hlookup entry hentry
    simp at hne

/-- A value of distinct keys is found under its key. -/
theorem lookup_of_mem {members : List (κ × ν)} {k : κ} {v : ν} (hnodup : (members.map Prod.fst).Nodup)
    (h : (k, v) ∈ members) : members.lookup k = some v := by
  induction members with
  | nil => cases h
  | cons entry members ih =>
    obtain ⟨hnew, hrest⟩ := List.nodup_cons.1 hnodup
    rcases List.mem_cons.1 h with rfl | h
    · exact List.lookup_cons_self
    · have hne : (k == entry.1) = false := by
        rw [beq_eq_false_iff_ne]
        intro heq
        exact hnew (heq ▸ List.mem_map_of_mem h)
      rw [List.lookup_cons, hne]
      exact ih hrest h

/-- What is written under a key is of a section that has it. -/
theorem lookup_write_none {sections : List (Section ε κ ν)} (hproper : Proper sections) {members : List (κ × ν)}
    (h : write sections = .ok members) {k : κ} (hk : ∀ sec ∈ sections, k ∉ sec.keys) : members.lookup k = none := by
  induction sections generalizing members with
  | nil =>
    obtain rfl := Except.ok.inj h
    rfl
  | cons sec sections ih =>
    obtain ⟨first, hfirst, h⟩ := bind_eq_ok.1 h
    obtain ⟨rest, hrest, h⟩ := bind_eq_ok.1 h
    obtain rfl := Except.ok.inj h
    have hnone : first.lookup k = none := by
      split_ifs at hfirst
      · refine lookup_eq_none ?_
        rw [hproper.keys sec (List.mem_cons_self ..) _ hfirst]
        exact hk sec (List.mem_cons_self ..)
      · obtain rfl := Except.ok.inj hfirst
        rfl
    rw [List.lookup_append, hnone, Option.none_or]
    exact ih hproper.tail hrest fun s hs => hk s (List.mem_cons_of_mem _ hs)

/-- **It is read back.** Under a section's keys there is what the section wrote, if
it is shown, and otherwise nothing. -/
theorem lookup_write {sections : List (Section ε κ ν)} (hproper : Proper sections) {members : List (κ × ν)}
    (h : write sections = .ok members) {sec : Section ε κ ν} (hsec : sec ∈ sections) {k : κ} (hk : k ∈ sec.keys) :
    (sec.shown = true → ∃ own v, sec.members = .ok own ∧ own.lookup k = some v ∧ members.lookup k = some v) ∧
      (sec.shown = false → members.lookup k = none) := by
  induction sections generalizing members with
  | nil => cases hsec
  | cons head sections ih =>
    obtain ⟨first, hfirst, h⟩ := bind_eq_ok.1 h
    obtain ⟨rest, hrest, h⟩ := bind_eq_ok.1 h
    obtain rfl := Except.ok.inj h
    have hapart := (List.nodup_append'.1 hproper.apart).2.2
    rw [List.lookup_append]
    rcases List.mem_cons.1 hsec with rfl | hsec
    · have hnone : rest.lookup k = none := by
        refine lookup_write_none hproper.tail hrest fun s hs hks => ?_
        exact hapart hk (List.mem_flatMap.2 ⟨s, hs, hks⟩)
      constructor
      · intro hshown
        rw [if_pos hshown] at hfirst
        have hkeys := hproper.keys sec (List.mem_cons_self ..) _ hfirst
        have hkfirst : k ∈ first.map Prod.fst := by
          rw [hkeys]
          exact hk
        obtain ⟨v, hv⟩ := lookup_isSome hkfirst
        exact ⟨first, v, hfirst, hv, by rw [hv, Option.some_or]⟩
      · intro hshown
        rw [hshown] at hfirst
        obtain rfl := Except.ok.inj hfirst
        exact hnone
    · have hnone : first.lookup k = none := by
        split_ifs at hfirst
        · refine lookup_eq_none ?_
          rw [hproper.keys head (List.mem_cons_self ..) _ hfirst]
          exact fun hkh => hapart hkh (List.mem_flatMap.2 ⟨sec, hsec, hk⟩)
        · obtain rfl := Except.ok.inj hfirst
          rfl
      rw [hnone, Option.none_or]
      exact ih hproper.tail hrest hsec

end Handystats.OptionalFields
