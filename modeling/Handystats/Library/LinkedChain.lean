/-
A singly linked chain of nodes whose links may be stored late.

Nodes are appended at the end in two steps: first the node becomes the last
one, then the link from its predecessor is stored. In between the chain is
cut there; `pend x y` says that the link from `x` to `y` is still to be
stored. `Chain` is the invariant, and its lemmas are the steps: `append`,
`store`, `advance` past the first node, and a `write` to a node outside.

`[x, y] <:+: l` says that `y` stands directly after `x`.
-/
import Mathlib.Data.List.Infix
import Mathlib.Data.List.Nodup
import Mathlib.Logic.Function.Basic

namespace Handystats.LinkedChain

variable {α : Type}

/-! ## Neighbours -/

theorem neighbours_cons {a x y : α} {l : List α} :
    [x, y] <:+: a :: l ↔ (x = a ∧ l.head? = some y) ∨ [x, y] <:+: l := by
  rw [List.infix_cons_iff]
  refine or_congr_left ?_
  cases l with
  | nil => simp
  | cons b l => simp [eq_comm]

theorem neighbours_concat {x y z : α} {l : List α} :
    [x, y] <:+: l ++ [z] ↔ (l.getLast? = some x ∧ y = z) ∨ [x, y] <:+: l := by
  induction l with
  | nil => simp [neighbours_cons]
  | cons a l ih =>
    rw [List.cons_append, neighbours_cons, neighbours_cons, ih]
    cases l with
    | nil => simp [@eq_comm _ x a, @eq_comm _ y z]
    | cons b l =>
      rw [List.cons_append, List.head?_cons, List.head?_cons, List.getLast?_cons_cons]
      exact or_left_comm

theorem mem_of_neighbours {x y : α} {l : List α} (h : [x, y] <:+: l) : x ∈ l ∧ y ∈ l :=
  ⟨h.subset (by simp), h.subset (by simp)⟩

/-- In a list without duplicates there is one successor at most. -/
theorem neighbour_unique {x y z : α} {l : List α} (hn : l.Nodup) (hy : [x, y] <:+: l)
    (hz : [x, z] <:+: l) : y = z := by
  induction l with
  | nil => simp at hy
  | cons a l ih =>
    obtain ⟨ha, hn⟩ := List.nodup_cons.1 hn
    have hout : ∀ {w}, ¬ [a, w] <:+: l := fun h => ha (mem_of_neighbours h).1
    rcases neighbours_cons.1 hy with ⟨rfl, hy'⟩ | hy'
    · rcases neighbours_cons.1 hz with ⟨-, hz'⟩ | hz'
      · exact Option.some.inj (hy'.symm.trans hz')
      · exact absurd hz' hout
    · rcases neighbours_cons.1 hz with ⟨rfl, -⟩ | hz'
      · exact absurd hy' hout
      · exact ih hn hy' hz'

/-- The last element has none, every other has one. -/
theorem exists_neighbour {x w : α} {l : List α} (hx : x ∈ l) (hw : l.getLast? = some w) (hne : x ≠ w) :
    ∃ y, [x, y] <:+: l := by
  induction l with
  | nil => simp at hx
  | cons a l ih =>
    cases l with
    | nil =>
      simp only [List.mem_singleton, List.getLast?_singleton, Option.some.injEq] at hx hw
      exact absurd (hx.trans hw) hne
    | cons b l =>
      rcases List.mem_cons.1 hx with rfl | hx
      · exact ⟨b, neighbours_cons.2 (.inl ⟨rfl, rfl⟩)⟩
      · obtain ⟨y, hy⟩ := ih hx (by simpa using hw)
        exact ⟨y, neighbours_cons.2 (.inr hy)⟩

theorem ne_last_of_neighbour {x y w : α} {l : List α} (hn : l.Nodup) (h : [x, y] <:+: l)
    (hw : l.getLast? = some w) : x ≠ w := by
  rintro rfl
  obtain ⟨l, rfl⟩ := List.getLast?_eq_some_iff.1 hw
  rw [List.nodup_append] at hn
  rcases neighbours_concat.1 h with ⟨hx, -⟩ | h
  · exact hn.2.2 x (List.mem_of_getLast? hx) x (by simp) rfl
  · exact hn.2.2 x (mem_of_neighbours h).1 x (by simp) rfl

/-! ## Chains -/

/-- The nodes from `first` to `last`, linked by `next` up to the links that
are still to be stored. -/
structure Chain (next : α → Option α) (first last : α) (pend : α → α → Prop) (nodes : List α) :
    Prop where
  nodup : nodes.Nodup
  first_eq : nodes.head? = some first
  last_eq : nodes.getLast? = some last
  last_null : next last = none
  linked : ∀ x y, [x, y] <:+: nodes → next x = some y ∨ pend x y
  pending : ∀ x y, pend x y → [x, y] <:+: nodes ∧ next x = none

namespace Chain

variable {next : α → Option α} {first last n x y : α} {pend pend' : α → α → Prop} {nodes : List α}

/-- One node, which is first and last. -/
theorem single (h : next n = none) : Chain next n n (fun _ _ => False) [n] :=
  ⟨by simp, rfl, rfl, h, fun x y hxy => absurd hxy.length_le (by simp), fun _ _ h => h.elim⟩

theorem congr (h : Chain next first last pend nodes) (hp : ∀ x y, pend x y ↔ pend' x y) :
    Chain next first last pend' nodes :=
  ⟨h.nodup, h.first_eq, h.last_eq, h.last_null, fun x y hxy => (h.linked x y hxy).imp_right (hp x y).1,
    fun x y hxy => h.pending x y ((hp x y).2 hxy)⟩

theorem first_mem (h : Chain next first last pend nodes) : first ∈ nodes :=
  List.mem_of_head? h.first_eq

theorem last_mem (h : Chain next first last pend nodes) : last ∈ nodes :=
  List.mem_of_getLast? h.last_eq

/-- A stored link leads to the successor. -/
theorem neighbour_of_next (h : Chain next first last pend nodes) (hx : x ∈ nodes)
    (hnext : next x = some y) : [x, y] <:+: nodes := by
  have hne : x ≠ last := by
    rintro rfl
    rw [h.last_null] at hnext
    cases hnext
  obtain ⟨z, hz⟩ := exists_neighbour hx h.last_eq hne
  rcases h.linked x z hz with hl | hp
  · obtain rfl := Option.some.inj (hl.symm.trans hnext)
    exact hz
  · rw [(h.pending x z hp).2] at hnext
    cases hnext

/-- Past the first node. -/
theorem advance (h : Chain next first last pend nodes) (hnext : next first = some y) :
    ∃ rest, nodes = first :: y :: rest ∧ Chain next y last pend (y :: rest) := by
  obtain ⟨l, rfl⟩ : ∃ l, nodes = first :: l := List.head?_eq_some_iff.1 h.first_eq
  obtain ⟨hout, hnodup⟩ := List.nodup_cons.1 h.nodup
  have hy : l.head? = some y := by
    rcases neighbours_cons.1 (h.neighbour_of_next h.first_mem hnext) with ⟨-, hy⟩ | hy
    · exact hy
    · exact absurd (mem_of_neighbours hy).1 hout
  obtain ⟨rest, rfl⟩ : ∃ rest, l = y :: rest := List.head?_eq_some_iff.1 hy
  refine ⟨rest, rfl, hnodup, rfl, by simpa using h.last_eq, h.last_null,
    fun x z hxz => h.linked x z (neighbours_cons.2 (.inr hxz)), fun x z hxz => ?_⟩
  obtain ⟨hn, hnull⟩ := h.pending x z hxz
  rcases neighbours_cons.1 hn with ⟨rfl, -⟩ | hn
  · rw [hnull] at hnext
    cases hnext
  · exact ⟨hn, hnull⟩

/-- Where nothing is pending, a first node without a link is the only one. -/
theorem eq_single (h : Chain next first last pend nodes) (hp : ∀ y, ¬ pend first y)
    (hnext : next first = none) : nodes = [first] := by
  by_cases heq : first = last
  · subst heq
    obtain ⟨l, hl⟩ := List.head?_eq_some_iff.1 h.first_eq
    obtain ⟨l', hl'⟩ := List.getLast?_eq_some_iff.1 h.last_eq
    cases l with
    | nil => exact hl
    | cons b l =>
      exfalso
      have hn : [first, b] <:+: nodes := by rw [hl]; exact neighbours_cons.2 (.inl ⟨rfl, rfl⟩)
      exact ne_last_of_neighbour h.nodup hn h.last_eq rfl
  · obtain ⟨y, hy⟩ := exists_neighbour h.first_mem h.last_eq heq
    rcases h.linked _ _ hy with hl | hl
    · rw [hl] at hnext
      cases hnext
    · exact absurd hl (hp y)

/-- A chain from a node to itself. -/
theorem eq_single_of_eq (h : Chain next first first pend nodes) : nodes = [first] := by
  refine h.eq_single (fun y hy => ?_) h.last_null
  exact ne_last_of_neighbour h.nodup (h.pending _ _ hy).1 h.last_eq rfl

/-- A node becomes the last one; the link to it is pending. -/
theorem append (h : Chain next first last pend nodes) (hn : n ∉ nodes) (hnull : next n = none)
    (hp : ∀ x y, pend' x y ↔ pend x y ∨ (x = last ∧ y = n)) :
    Chain next first n pend' (nodes ++ [n]) := by
  refine ⟨?_, ?_, List.getLast?_concat .., hnull, fun x y hxy => ?_, fun x y hxy => ?_⟩
  · rw [List.nodup_append]
    exact ⟨h.nodup, by simp, fun a ha b hb => by
      rw [List.mem_singleton.1 hb]
      rintro rfl
      exact hn ha⟩
  · rw [List.head?_append, h.first_eq]
    rfl
  · rcases neighbours_concat.1 hxy with ⟨hx, rfl⟩ | hxy
    · exact .inr ((hp _ _).2 (.inr ⟨Option.some.inj (hx.symm.trans h.last_eq), rfl⟩))
    · exact (h.linked x y hxy).imp_right fun hpxy => (hp _ _).2 (.inl hpxy)
  · rcases (hp x y).1 hxy with hpxy | ⟨rfl, rfl⟩
    · exact ⟨neighbours_concat.2 (.inr (h.pending x y hpxy).1), (h.pending x y hpxy).2⟩
    · exact ⟨neighbours_concat.2 (.inl ⟨h.last_eq, rfl⟩), h.last_null⟩

variable [DecidableEq α]

/-- A pending link is stored. -/
theorem store (h : Chain next first last pend nodes) (hxy : pend x y)
    (hp : ∀ a b, pend' a b ↔ pend a b ∧ ¬ (a = x ∧ b = y)) :
    Chain (Function.update next x (some y)) first last pend' nodes := by
  obtain ⟨hn, -⟩ := h.pending x y hxy
  have hne := ne_last_of_neighbour h.nodup hn h.last_eq
  refine ⟨h.nodup, h.first_eq, h.last_eq, ?_, fun a b hab => ?_, fun a b hab => ?_⟩
  · rw [Function.update_of_ne hne.symm, h.last_null]
  · by_cases ha : a = x
    · subst ha
      rw [Function.update_self, neighbour_unique h.nodup hab hn]
      exact .inl rfl
    · rw [Function.update_of_ne ha]
      exact (h.linked a b hab).imp_right fun hab => (hp a b).2 ⟨hab, fun h => ha h.1⟩
  · obtain ⟨hab, hout⟩ := (hp a b).1 hab
    obtain ⟨hab, hnull⟩ := h.pending a b hab
    have ha : a ≠ x := by
      rintro rfl
      exact hout ⟨rfl, neighbour_unique h.nodup hab hn⟩
    exact ⟨hab, by rw [Function.update_of_ne ha, hnull]⟩

/-- A node outside is written. -/
theorem write (h : Chain next first last pend nodes) (hn : n ∉ nodes) (v : Option α) :
    Chain (Function.update next n v) first last pend nodes := by
  have hsame : ∀ x ∈ nodes, Function.update next n v x = next x := by
    intro x hx
    rw [Function.update_of_ne]
    rintro rfl
    exact hn hx
  refine ⟨h.nodup, h.first_eq, h.last_eq, ?_, fun x y hxy => ?_, fun x y hxy => ?_⟩
  · rw [hsame _ h.last_mem, h.last_null]
  · rw [hsame _ (mem_of_neighbours hxy).1]
    exact h.linked x y hxy
  · obtain ⟨hxy', hnull⟩ := h.pending x y hxy
    exact ⟨hxy', by rw [hsame _ (mem_of_neighbours hxy').1, hnull]⟩

end Chain

end Handystats.LinkedChain
