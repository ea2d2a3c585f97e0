/-
Weighted sums of a list of values, with weights in `[0, 1]`, and values that
lie between the extremes of a list.

A weighting changes in two ways as a window moves over the data: all weights
are scaled by one share (`IsWeighting.scale`), and a new value enters with a
weight of its own (`IsWeighting.concat`).
-/
import Mathlib.Tactic
import Mathlib.Algebra.Order.Field.Basic
import Mathlib.Algebra.BigOperators.Group.List.Basic
import Mathlib.Algebra.BigOperators.Ring.List
import Mathlib.Algebra.Order.BigOperators.Group.List

namespace Handystats.Weighting

section Between

variable {K : Type} [LinearOrder K]

/-- `x` is at least some value and at most some value: it lies between the
smallest and the largest. -/
def Between (vs : List K) (x : K) : Prop := (∃ v ∈ vs, v ≤ x) ∧ ∃ v ∈ vs, x ≤ v

theorem Between.mono {vs us : List K} {x : K} (h : Between vs x) (hsub : ∀ v ∈ vs, v ∈ us) :
    Between us x := by
  obtain ⟨⟨a, ha, hax⟩, b, hb, hbx⟩ := h
  exact ⟨⟨a, hsub a ha, hax⟩, b, hsub b hb, hbx⟩

theorem Between.of_mem {vs : List K} {x : K} (h : x ∈ vs) : Between vs x :=
  ⟨⟨x, h, le_rfl⟩, x, h, le_rfl⟩

/-- What lies between two values that lie between the extremes does so too. -/
theorem Between.of_le {vs : List K} {a b x : K} (ha : Between vs a) (hb : Between vs b)
    (h₁ : a ≤ x) (h₂ : x ≤ b) : Between vs x := by
  obtain ⟨⟨l, hl, hla⟩, -⟩ := ha
  obtain ⟨-, u, hu, hbu⟩ := hb
  exact ⟨⟨l, hl, hla.trans h₁⟩, u, hu, h₂.trans hbu⟩

end Between

variable {K : Type} [Field K]

/-- The sum of the values, each times its weight. -/
def dot (ws vs : List K) : K := (List.zipWith (· * ·) ws vs).sum

@[simp] theorem dot_nil : dot ([] : List K) [] = 0 := rfl

theorem dot_cons (w v : K) (ws vs : List K) : dot (w :: ws) (v :: vs) = w * v + dot ws vs := by
  simp [dot]

theorem dot_concat {ws vs : List K} (h : ws.length = vs.length) (w v : K) :
    dot (ws ++ [w]) (vs ++ [v]) = dot ws vs + w * v := by
  simp [dot, List.zipWith_append h]

theorem dot_scale (ws vs : List K) (k : K) : dot (ws.map (· * k)) vs = dot ws vs * k := by
  induction ws generalizing vs with
  | nil => simp [dot]
  | cons w ws ih =>
    cases vs with
    | nil => simp [dot]
    | cons v vs =>
      rw [List.map_cons, dot_cons, dot_cons, ih]
      ring

variable [LinearOrder K]

/-- One weight in `[0, 1]` for each value. -/
structure IsWeighting (ws vs : List K) : Prop where
  length : ws.length = vs.length
  nonneg : ∀ w ∈ ws, 0 ≤ w
  le_one : ∀ w ∈ ws, w ≤ 1

theorem IsWeighting.nil : IsWeighting ([] : List K) [] := ⟨rfl, by simp, by simp⟩

/-- A new value with its weight. -/
theorem IsWeighting.concat {ws vs : List K} (h : IsWeighting ws vs) {w : K} (h₀ : 0 ≤ w)
    (h₁ : w ≤ 1) (v : K) : IsWeighting (ws ++ [w]) (vs ++ [v]) := by
  refine ⟨by simpa using h.length, fun x hx => ?_, fun x hx => ?_⟩ <;>
    rw [List.mem_append, List.mem_singleton] at hx <;> rcases hx with hx | rfl
  · exact h.nonneg x hx
  · exact h₀
  · exact h.le_one x hx
  · exact h₁

variable [IsStrictOrderedRing K]

/-- All weights scaled by one share. -/
theorem IsWeighting.scale {ws vs : List K} (h : IsWeighting ws vs) {k : K} (h₀ : 0 ≤ k)
    (h₁ : k ≤ 1) : IsWeighting (ws.map (· * k)) vs := by
  refine ⟨by simpa using h.length, fun w hw => ?_, fun w hw => ?_⟩
  · obtain ⟨w', hw', rfl⟩ := List.mem_map.1 hw
    exact mul_nonneg (h.nonneg w' hw') h₀
  · obtain ⟨w', hw', rfl⟩ := List.mem_map.1 hw
    exact mul_le_one₀ (h.le_one w' hw') h₀ h₁

theorem IsWeighting.sum_nonneg {ws vs : List K} (h : IsWeighting ws vs) : 0 ≤ ws.sum :=
  List.sum_nonneg h.nonneg

theorem IsWeighting.sum_le {ws vs : List K} (h : IsWeighting ws vs) : ws.sum ≤ vs.length := by
  rw [← h.length]
  have := List.sum_le_card_nsmul ws 1 h.le_one
  simpa using this

theorem dot_le {hi : K} : ∀ {ws vs : List K}, ws.length = vs.length → (∀ w ∈ ws, 0 ≤ w) →
    (∀ v ∈ vs, v ≤ hi) → dot ws vs ≤ hi * ws.sum
  | [], [], _, _, _ => by simp
  | w :: ws, v :: vs, hl, hw, hv => by
    have ih := dot_le (by simpa using hl) (fun x hx => hw x (List.mem_cons_of_mem _ hx))
      (fun x hx => hv x (List.mem_cons_of_mem _ hx))
    have hwv : w * v ≤ w * hi :=
      mul_le_mul_of_nonneg_left (hv v List.mem_cons_self) (hw w List.mem_cons_self)
    rw [dot_cons, List.sum_cons]
    linarith

theorem le_dot {lo : K} : ∀ {ws vs : List K}, ws.length = vs.length → (∀ w ∈ ws, 0 ≤ w) →
    (∀ v ∈ vs, lo ≤ v) → lo * ws.sum ≤ dot ws vs
  | [], [], _, _, _ => by simp
  | w :: ws, v :: vs, hl, hw, hv => by
    have ih := le_dot (by simpa using hl) (fun x hx => hw x (List.mem_cons_of_mem _ hx))
      (fun x hx => hv x (List.mem_cons_of_mem _ hx))
    have hwv : w * lo ≤ w * v :=
      mul_le_mul_of_nonneg_left (hv v List.mem_cons_self) (hw w List.mem_cons_self)
    rw [dot_cons, List.sum_cons]
    linarith

theorem exists_le_of_dot_le {ws vs : List K} (h : IsWeighting ws vs) (hne : vs ≠ []) {x : K}
    (hpos : 0 < ws.sum) (hx : dot ws vs ≤ x * ws.sum) : ∃ v ∈ vs, v ≤ x := by
  obtain ⟨v₀, hv₀, hmin⟩ := vs.toFinset.exists_min_image id (by simpa using hne)
  simp only [List.mem_toFinset, id] at hv₀ hmin
  have hlo := le_dot h.length h.nonneg hmin
  exact ⟨v₀, hv₀, le_of_mul_le_mul_right (hlo.trans hx) hpos⟩

theorem exists_ge_of_le_dot {ws vs : List K} (h : IsWeighting ws vs) (hne : vs ≠ []) {x : K}
    (hpos : 0 < ws.sum) (hx : x * ws.sum ≤ dot ws vs) : ∃ v ∈ vs, x ≤ v := by
  obtain ⟨v₀, hv₀, hmax⟩ := vs.toFinset.exists_max_image id (by simpa using hne)
  simp only [List.mem_toFinset, id] at hv₀ hmax
  have hhi := dot_le h.length h.nonneg hmax
  exact ⟨v₀, hv₀, le_of_mul_le_mul_right (hx.trans hhi) hpos⟩

/-- **A weighted average lies between the smallest and the largest value.** -/
theorem IsWeighting.average_between {ws vs : List K} (h : IsWeighting ws vs) (hpos : 0 < ws.sum) :
    Between vs (dot ws vs / ws.sum) := by
  have hne : vs ≠ [] := by
    rintro rfl
    have : ws = [] := List.length_eq_zero_iff.1 h.length
    simp [this] at hpos
  have heq : dot ws vs / ws.sum * ws.sum = dot ws vs := div_mul_cancel₀ _ hpos.ne'
  exact ⟨exists_le_of_dot_le h hne hpos heq.ge, exists_ge_of_le_dot h hne hpos heq.le⟩

end Handystats.Weighting
