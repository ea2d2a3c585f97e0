/-
The six comparison operators of a type, and when they are one total order.

`totalOn_iff` is about operators that compare by a key but for some pairs,
which they answer in reverse: they are a total order exactly where no third
value lies between two such, itself compared rightly with both.
-/
import Mathlib.Order.Defs.LinearOrder
import Mathlib.Order.Lattice
import Mathlib.Data.Set.Defs

namespace Handystats

/-- The comparison operators of a type. -/
structure Comparisons (α : Type) where
  eq : α → α → Bool
  ne : α → α → Bool
  lt : α → α → Bool
  le : α → α → Bool
  gt : α → α → Bool
  ge : α → α → Bool

namespace Comparisons

variable {α κ : Type}

/-- Exactly one of `<`, `==` and `>` holds, and the other three go by them. -/
structure Consistent (c : Comparisons α) (x y : α) : Prop where
  one : (c.lt x y ∧ ¬ c.eq x y ∧ ¬ c.gt x y) ∨ (¬ c.lt x y ∧ c.eq x y ∧ ¬ c.gt x y) ∨
    (¬ c.lt x y ∧ ¬ c.eq x y ∧ c.gt x y)
  le_iff : c.le x y ↔ c.lt x y ∨ c.eq x y
  ge_iff : c.ge x y ↔ c.gt x y ∨ c.eq x y
  ne_iff : c.ne x y ↔ ¬ c.eq x y

/-- The operators are a total order on `S`. -/
structure TotalOn (c : Comparisons α) (S : Set α) : Prop where
  consistent : ∀ x ∈ S, ∀ y ∈ S, c.Consistent x y
  lt_trans : ∀ x ∈ S, ∀ y ∈ S, ∀ z ∈ S, c.lt x y → c.lt y z → c.lt x z
  eq_trans : ∀ x ∈ S, ∀ y ∈ S, ∀ z ∈ S, c.eq x y → c.eq y z → c.eq x z

/-- The operators compare `x` with `y` as `a` with `b`. -/
structure Reads [LinearOrder κ] (c : Comparisons α) (x y : α) (a b : κ) : Prop where
  eq : c.eq x y = decide (a = b)
  ne : c.ne x y = decide (a ≠ b)
  lt : c.lt x y = decide (a < b)
  le : c.le x y = decide (a ≤ b)
  gt : c.gt x y = decide (b < a)
  ge : c.ge x y = decide (b ≤ a)

variable [LinearOrder κ] {c : Comparisons α}

/-- What compares through a linear order is consistent. -/
theorem Reads.consistent {x y : α} {a b : κ} (h : c.Reads x y a b) : c.Consistent x y := by
  refine ⟨?_, ?_, ?_, ?_⟩
  · simp only [h.lt, h.eq, h.gt, decide_eq_true_eq]
    rcases lt_trichotomy a b with hlt | heq | hgt
    · exact .inl ⟨hlt, hlt.ne, hlt.asymm⟩
    · exact .inr (.inl ⟨heq.not_lt, heq, heq.not_gt⟩)
    · exact .inr (.inr ⟨hgt.asymm, hgt.ne', hgt⟩)
  · simp only [h.le, h.lt, h.eq, decide_eq_true_eq, le_iff_lt_or_eq]
  · simp only [h.ge, h.gt, h.eq, decide_eq_true_eq]
    rw [le_iff_lt_or_eq, eq_comm]
  · simp only [h.ne, h.eq, decide_eq_true_eq, ne_eq]

/-- The operators compare by `key`, but for the pairs `rev x y`: there `x`
is no greater, and they answer that it is. -/
structure Reversing (c : Comparisons α) (key : α → κ) (rev : α → α → Prop) (S : Set α) : Prop where
  consistent : ∀ x ∈ S, ∀ y ∈ S, c.Consistent x y
  gt_iff : ∀ x ∈ S, ∀ y ∈ S, c.gt x y ↔ c.lt y x
  lt_iff : ∀ x ∈ S, ∀ y ∈ S, c.lt x y ↔ rev y x ∨ ¬ rev x y ∧ key x < key y
  eq_iff : ∀ x ∈ S, ∀ y ∈ S, c.eq x y ↔ ¬ rev x y ∧ ¬ rev y x ∧ key x = key y
  key_le : ∀ x ∈ S, ∀ y ∈ S, rev x y → key x ≤ key y
  rev_trans : ∀ x ∈ S, ∀ y ∈ S, ∀ z ∈ S, rev x y → rev y z → rev x z
  rev_asymm : ∀ x ∈ S, ∀ y ∈ S, rev x y → ¬ rev y x

/-- `x` and `y` are compared in reverse, and `z`, between them, with both
as it is. -/
def Trapped (key : α → κ) (rev : α → α → Prop) (x y z : α) : Prop :=
  rev x y ∧ (key x ≤ key z ∧ key z ≤ key y) ∧ ¬ rev x z ∧ ¬ rev z x ∧ ¬ rev y z ∧ ¬ rev z y

variable {key : α → κ} {rev : α → α → Prop} {S : Set α}

theorem Reversing.eq_comm (h : c.Reversing key rev S) {x y : α} (hx : x ∈ S) (hy : y ∈ S) :
    c.eq x y ↔ c.eq y x := by
  rw [h.eq_iff x hx y hy, h.eq_iff y hy x hx]
  constructor
  · intro heq
    obtain ⟨h1, h2, h3⟩ := heq
    exact ⟨h2, h1, h3.symm⟩
  · intro heq
    obtain ⟨h1, h2, h3⟩ := heq
    exact ⟨h2, h1, h3.symm⟩

theorem Reversing.not_eq_of_lt (h : c.Reversing key rev S) {x y : α} (hx : x ∈ S) (hy : y ∈ S)
    (hlt : c.lt x y) : ¬ c.eq x y := by
  rcases (h.consistent x hx y hy).one with ⟨-, hne, -⟩ | ⟨hn, -, -⟩ | ⟨hn, -, -⟩
  · exact hne
  · exact absurd hlt hn
  · exact absurd hlt hn

/-- A trapped value makes a cycle. -/
theorem Reversing.not_trapped (h : c.Reversing key rev S) (ht : c.TotalOn S) {x y z : α} (hx : x ∈ S)
    (hy : y ∈ S) (hz : z ∈ S) : ¬ Trapped key rev x y z := by
  intro htrap
  obtain ⟨hrev, ⟨hxz, hzy⟩, hnxz, hnzx, hnyz, hnzy⟩ := htrap
  have hyx : c.lt y x := (h.lt_iff y hy x hx).mpr (.inl hrev)
  rcases hxz.lt_or_eq with hltxz | heqxz
  · have h1 : c.lt x z := (h.lt_iff x hx z hz).mpr (.inr ⟨hnxz, hltxz⟩)
    have h2 : c.lt y z := ht.lt_trans y hy x hx z hz hyx h1
    rcases hzy.lt_or_eq with hltzy | heqzy
    · have h3 : c.lt z y := (h.lt_iff z hz y hy).mpr (.inr ⟨hnzy, hltzy⟩)
      have h4 : c.lt y y := ht.lt_trans y hy z hz y hy h2 h3
      rcases (h.lt_iff y hy y hy).mp h4 with hr | ⟨-, hr⟩
      · exact h.rev_asymm y hy y hy hr hr
      · exact lt_irrefl _ hr
    · exact h.not_eq_of_lt hy hz h2 ((h.eq_iff y hy z hz).mpr ⟨hnyz, hnzy, heqzy.symm⟩)
  · have h1 : c.eq x z := (h.eq_iff x hx z hz).mpr ⟨hnxz, hnzx, heqxz⟩
    rcases hzy.lt_or_eq with hltzy | heqzy
    · have h3 : c.lt z y := (h.lt_iff z hz y hy).mpr (.inr ⟨hnzy, hltzy⟩)
      have h4 : c.lt z x := ht.lt_trans z hz y hy x hx h3 hyx
      exact h.not_eq_of_lt hz hx h4 ((h.eq_comm hx hz).mp h1)
    · have h2 : c.eq z y := (h.eq_iff z hz y hy).mpr ⟨hnzy, hnyz, heqzy⟩
      exact h.not_eq_of_lt hy hx hyx ((h.eq_comm hx hy).mp (ht.eq_trans x hx z hz y hy h1 h2))

/-- Two of three pairs in order put the third in order, unless a value is
trapped. -/
theorem Reversing.lt_trans (h : c.Reversing key rev S)
    (hfree : ∀ x ∈ S, ∀ y ∈ S, ∀ z ∈ S, ¬ Trapped key rev x y z) {x y z : α} (hx : x ∈ S)
    (hy : y ∈ S) (hz : z ∈ S) (hxy : c.lt x y) (hyz : c.lt y z) : c.lt x z := by
  rw [h.lt_iff x hx y hy] at hxy
  rw [h.lt_iff y hy z hz] at hyz
  rw [h.lt_iff x hx z hz]
  by_cases hrev : rev z x
  · exact .inl hrev
  refine .inr ?_
  rcases hxy with hryx | ⟨hnxy, hltxy⟩
  · -- `x` and `y` in reverse
    have hle := h.key_le y hy x hx hryx
    rcases hyz with hrzy | ⟨hnyz, hltyz⟩
    · exact absurd (h.rev_trans z hz y hy x hx hrzy hryx) hrev
    have hnxz : ¬ rev x z := fun hr => hnyz (h.rev_trans y hy x hx z hz hryx hr)
    refine ⟨hnxz, ?_⟩
    by_contra hge
    have hnzy : ¬ rev z y := fun hr => (h.key_le z hz y hy hr).not_gt hltyz
    exact hfree y hy x hx z hz ⟨hryx, ⟨hltyz.le, not_lt.mp hge⟩, hnyz, hnzy, hnxz, hrev⟩
  · have hnyx : ¬ rev y x := fun hr => (h.key_le y hy x hx hr).not_gt hltxy
    rcases hyz with hrzy | ⟨hnyz, hltyz⟩
    · -- `y` and `z` in reverse
      have hnxz : ¬ rev x z := fun hr => hnxy (h.rev_trans x hx z hz y hy hr hrzy)
      refine ⟨hnxz, ?_⟩
      by_contra hge
      exact hfree z hz y hy x hx ⟨hrzy, ⟨not_lt.mp hge, hltxy.le⟩, hrev, hnxz, hnyx, hnxy⟩
    · -- neither: `y` lies between `x` and `z`
      have hnzy : ¬ rev z y := fun hr => (h.key_le z hz y hy hr).not_gt hltyz
      refine ⟨fun hr => ?_, hltxy.trans hltyz⟩
      exact hfree x hx z hz y hy ⟨hr, ⟨hltxy.le, hltyz.le⟩, hnxy, hnyx, hnzy, hnyz⟩

theorem Reversing.eq_trans (h : c.Reversing key rev S)
    (hfree : ∀ x ∈ S, ∀ y ∈ S, ∀ z ∈ S, ¬ Trapped key rev x y z) {x y z : α} (hx : x ∈ S)
    (hy : y ∈ S) (hz : z ∈ S) (hxy : c.eq x y) (hyz : c.eq y z) : c.eq x z := by
  obtain ⟨hnxy, hnyx, hkxy⟩ := (h.eq_iff x hx y hy).mp hxy
  obtain ⟨hnyz, hnzy, hkyz⟩ := (h.eq_iff y hy z hz).mp hyz
  refine (h.eq_iff x hx z hz).mpr ⟨fun hr => ?_, fun hr => ?_, hkxy.trans hkyz⟩
  · exact hfree x hx z hz y hy ⟨hr, ⟨hkxy.le, hkyz.le⟩, hnxy, hnyx, hnzy, hnyz⟩
  · exact hfree z hz x hx y hy ⟨hr, ⟨hkyz.ge, hkxy.ge⟩, hnzy, hnyz, hnxy, hnyx⟩

/-- **When reversed comparisons are a total order**: when no value is
trapped between two that are compared in reverse. -/
theorem Reversing.totalOn_iff (h : c.Reversing key rev S) :
    c.TotalOn S ↔ ∀ x ∈ S, ∀ y ∈ S, ∀ z ∈ S, ¬ Trapped key rev x y z :=
  ⟨fun ht _ hx _ hy _ hz => h.not_trapped ht hx hy hz,
    fun hfree => ⟨h.consistent, fun _ hx _ hy _ hz => h.lt_trans hfree hx hy hz,
      fun _ hx _ hy _ hz => h.eq_trans hfree hx hy hz⟩⟩

end Comparisons

end Handystats
