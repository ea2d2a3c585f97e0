/-
Lists whose long stretches are shortened.

A stretch is a maximal part of a list on which a condition has one value.
`shorten` keeps of a stretch that meets the condition its ends only. That can be
done in one pass that looks at an element and its two neighbours
(`thin_eq_shorten`), and in place, an index at a time: a position that is not
surrounded is passed over, the element at one that is goes (`thinFrom_keep`,
`thinFrom_erase`).
-/
import Mathlib.Data.List.SplitBy
import Mathlib.Data.List.DropRight

namespace Handystats.Stretches

variable {α : Type} (p : α → Bool)

/-- Without the elements in front and at the end that meet `p`. -/
def trim (xs : List α) : List α := (xs.dropWhile p).rdropWhile p

/-- The maximal parts on which `p` has one value. -/
def stretches (xs : List α) : List (List α) := xs.splitBy fun x y => p x == p y

/-- The first element and the last. -/
def ends (xs : List α) : List α := xs.head?.toList ++ xs.getLast?.toList

/-- Each stretch of three or more elements that meet `p` is left its ends. -/
def shorten (xs : List α) : List α :=
  (stretches p xs).flatMap fun s => if s.all p && 3 ≤ s.length then ends s else s

/-- The elements after one that does or does not meet `p` (`before`), without those
that meet it between two that do. -/
def thin (before : Bool) : List α → List α
  | x :: y :: rest =>
    if before && p x && p y then thin (p x) (y :: rest) else x :: thin (p x) (y :: rest)
  | xs => xs

/-- The element at `i` meets `p`, and so do both of its neighbours. -/
def surrounded (xs : List α) (i : Nat) : Bool :=
  (xs[i - 1]?).any p && (xs[i]?).any p && (xs[i + 1]?).any p

/-- `xs` with what comes from `i` on thinned out. -/
def thinFrom (xs : List α) (i : Nat) : List α :=
  xs.take i ++ thin p ((xs[i - 1]?).any p) (xs.drop i)

variable {p}

/-! ## One pass -/

theorem thin_cons_of_not {x : α} (hx : p x = false) (before : Bool) (rest : List α) :
    thin p before (x :: rest) = x :: thin p false rest := by
  cases rest with
  | nil => rfl
  | cons y rest => simp [thin, hx]

theorem thin_false_cons (x : α) (rest : List α) : thin p false (x :: rest) = x :: thin p (p x) rest := by
  cases rest with
  | nil => rfl
  | cons y rest => simp [thin]

theorem thin_true_cons {x y : α} (hx : p x = true) (hy : p y = true) (rest : List α) :
    thin p true (x :: y :: rest) = thin p true (y :: rest) := by
  simp [thin, hx, hy]

theorem thin_cons_of_next_not {x y : α} (hy : p y = false) (before : Bool) (rest : List α) :
    thin p before (x :: y :: rest) = x :: thin p (p x) (y :: rest) := by
  simp [thin, hy]

/-- What fails `p` stays. -/
theorem filter_thin (before : Bool) (xs : List α) :
    (thin p before xs).filter (fun x => !p x) = xs.filter fun x => !p x := by
  fun_induction thin p before xs with
  | case1 before x y rest h ih =>
    simp only [Bool.and_eq_true] at h
    rw [ih, List.filter_cons_of_neg (a := x) (by simp [h.1.2])]
  | case2 before x y rest h ih => simp only [List.filter_cons (x := x), ih]
  | case3 => rfl

/-- Nothing that is left is surrounded, nor is the first where what came before
meets `p`. -/
theorem not_surrounded_thin (before : Bool) (xs : List α) :
    (∀ i, surrounded p (thin p before xs) (i + 1) = false) ∧
      (before && ((thin p before xs)[0]?).any p && ((thin p before xs)[1]?).any p) = false := by
  fun_induction thin p before xs with
  | case1 before x y rest h ih =>
    simp only [Bool.and_eq_true] at h
    obtain ⟨ih, ih'⟩ := ih
    refine ⟨ih, ?_⟩
    rwa [show before = p x by rw [h.1.1, h.1.2]]
  | case2 before x y rest h ih =>
    obtain ⟨ih, ih'⟩ := ih
    refine ⟨fun i => ?_, ?_⟩
    · cases i with
      | zero => simpa [surrounded] using ih'
      | succ i => simpa [surrounded] using ih i
    · by_cases hxb : (before && p x) = true
      · -- The next one fails `p`, and stays.
        have hy : p y = false := by simpa [hxb] using h
        simp [thin_cons_of_not hy, hy]
      · simp only [Bool.not_eq_true] at hxb
        simp [hxb]
  | case3 before xs hshort =>
    cases xs with
    | nil => simp [surrounded]
    | cons x xs =>
      cases xs with
      | nil => simp [surrounded]
      | cons y rest => exact absurd rfl (hshort x y rest)

/-! ## The stretches -/

/-- A stretch that fails `p` stays. -/
theorem thin_append_of_not {s : List α} (hne : s ≠ []) (hs : ∀ x ∈ s, p x = false) (before : Bool)
    (rest : List α) : thin p before (s ++ rest) = s ++ thin p false rest := by
  induction s generalizing before with
  | nil => exact absurd rfl hne
  | cons x s ih =>
    rw [List.cons_append, thin_cons_of_not (hs x (by simp))]
    cases s with
    | nil => rfl
    | cons y s => rw [ih (by simp) fun z hz => hs z (by simp [hz])]; rfl

/-- Of elements that all meet `p`, after one that does, the last stays. -/
theorem thin_append_of_all {s : List α} (hne : s ≠ []) (hs : ∀ x ∈ s, p x = true) {rest : List α}
    (hrest : ∀ y ∈ rest.head?, p y = false) :
    thin p true (s ++ rest) = s.getLast?.toList ++ thin p true rest := by
  induction s with
  | nil => exact absurd rfl hne
  | cons x s ih =>
    have hx := hs x (by simp)
    cases s with
    | nil =>
      cases rest with
      | nil => rfl
      | cons y rest =>
        have hy := hrest y (by simp)
        rw [List.singleton_append, thin_cons_of_next_not hy, hx]
        rfl
    | cons z s =>
      have hz := hs z (by simp)
      have hlast : (x :: z :: s).getLast? = (z :: s).getLast? := by simp [List.getLast?_cons]
      rw [hlast, ← ih (by simp) fun y hy => hs y (by simp [hy])]
      exact thin_true_cons hx hz _

/-- A stretch that meets `p` is left its ends. -/
theorem thin_stretch {s : List α} (hne : s ≠ []) (hs : ∀ x ∈ s, p x = true) {rest : List α}
    (hrest : ∀ y ∈ rest.head?, p y = false) :
    thin p false (s ++ rest) = (if 3 ≤ s.length then ends s else s) ++ thin p true rest := by
  cases s with
  | nil => exact absurd rfl hne
  | cons x s =>
    rw [List.cons_append, thin_false_cons, hs x (by simp)]
    cases s with
    | nil => rfl
    | cons y s =>
      rw [thin_append_of_all (by simp) (fun z hz => hs z (by simp [hz])) hrest]
      cases s with
      | nil => rfl
      | cons z s => simp [ends, List.getLast?_cons]

/-- On a stretch `p` has one value. -/
theorem all_or_none {s : List α} (h : s.IsChain fun x y => (p x == p y) = true) :
    (∀ x ∈ s, p x = true) ∨ ∀ x ∈ s, p x = false := by
  induction s with
  | nil => simp
  | cons x s ih =>
    obtain ⟨hx, hs⟩ := List.isChain_cons.1 h
    cases s with
    | nil => cases hp : p x <;> simp [hp]
    | cons y s =>
      have hxy : p x = p y := eq_of_beq (hx y (by simp))
      refine (ih hs).imp (fun hall => ?_) fun hnone => ?_
      · simpa [hxy] using hall
      · simpa [hxy] using hnone

/-- One pass over stretches that alternate. -/
theorem thin_flatten {L : List (List α)} (hne : [] ∉ L)
    (huniform : ∀ s ∈ L, s.IsChain fun x y => (p x == p y) = true)
    (hseam : L.IsChain fun s t => ∃ hs ht, (p (s.getLast hs) == p (t.head ht)) = false)
    {before : Bool} (hbefore : before = true → ∀ x ∈ L.flatten.head?, p x = false) :
    thin p before L.flatten = L.flatMap fun s => if s.all p && 3 ≤ s.length then ends s else s := by
  induction L generalizing before with
  | nil => rfl
  | cons s L ih =>
    simp only [List.mem_cons, not_or, ne_comm (a := ([] : List α))] at hne
    obtain ⟨hs, hL⟩ := hne
    obtain ⟨hfirst, hseams⟩ := List.isChain_cons.1 hseam
    have hrest : ∀ {before : Bool}, (before = true → ∀ x ∈ L.flatten.head?, p x = false) →
        thin p before L.flatten = L.flatMap fun s => if s.all p && 3 ≤ s.length then ends s else s :=
      fun h => ih hL (fun t ht => huniform t (by simp [ht])) hseams h
    -- What comes after the stretch differs from it.
    have hnext : ∀ y ∈ L.flatten.head?, p y = !p (s.getLast hs) := by
      intro y hy
      cases L with
      | nil => cases hy
      | cons t L =>
        obtain ⟨_, ht, hdiff⟩ := hfirst t (by simp)
        rw [List.flatten_cons, List.head?_append_of_ne_nil _ ht, List.head?_eq_some_head ht] at hy
        obtain rfl := Option.some.inj hy
        revert hdiff
        cases p (s.getLast hs) <;> cases p (t.head ht) <;> simp
    rw [List.flatten_cons, List.flatMap_cons]
    rcases all_or_none (huniform s (by simp)) with hall | hnone
    · have hlast := hall _ (List.getLast_mem hs)
      have hfalse : before = false := by
        cases before with
        | false => rfl
        | true =>
          have hhead := hbefore rfl (s.head hs) (by simp [List.head?_append, List.head?_eq_some_head hs])
          rw [hall _ (List.head_mem hs)] at hhead
          cases hhead
      simp only [hlast, Bool.not_true] at hnext
      rw [hfalse, thin_stretch hs hall hnext, hrest fun _ => hnext]
      simp [List.all_eq_true.2 hall]
    · have hnotall : s.all p = false := List.all_eq_false.2 ⟨s.head hs, List.head_mem hs, by simp [hnone]⟩
      rw [thin_append_of_not hs hnone, hrest (by simp)]
      simp [hnotall]

/-- **One pass shortens every stretch.** -/
theorem thin_eq_shorten (xs : List α) : thin p false xs = shorten p xs := by
  have hstart : false = true → ∀ x ∈ (stretches p xs).flatten.head?, p x = false := by simp
  have h := thin_flatten (List.nil_notMem_splitBy (fun x y => p x == p y) xs)
    (fun s hs => List.isChain_of_mem_splitBy hs)
    (List.isChain_getLast_head_splitBy (fun x y => p x == p y) xs) hstart
  rwa [List.flatten_splitBy] at h

/-! ## In place -/

/-- An element that fails `p` leaves itself and both neighbours not surrounded. -/
theorem not_surrounded_near {xs : List α} {i j : Nat} {x : α} (hx : xs[j]? = some x) (hp : p x = false)
    (hi : 1 ≤ i) (hij : i ≤ j + 1) (hji : j ≤ i + 1) : surrounded p xs i = false := by
  obtain rfl | rfl | rfl : j = i - 1 ∨ j = i ∨ j = i + 1 := by omega
  · simp [surrounded, hx, hp]
  · simp [surrounded, hx, hp]
  · simp [surrounded, hx, hp]

theorem thinFrom_of_length_le {xs : List α} {i : Nat} (h : xs.length ≤ i + 1) : thinFrom p xs i = xs := by
  have hdrop : ∀ before, thin p before (xs.drop i) = xs.drop i := by
    intro before
    cases hd : xs.drop i with
    | nil => rfl
    | cons x rest =>
      have hlen := congrArg List.length hd
      rw [List.length_drop, List.length_cons] at hlen
      obtain rfl : rest = [] := List.length_eq_zero_iff.1 (by omega)
      rfl
  rw [thinFrom, hdrop, List.take_append_drop]

/-- What is not surrounded is passed over. -/
theorem thinFrom_keep {xs : List α} {i : Nat} (h : surrounded p xs i = false) :
    thinFrom p xs (i + 1) = thinFrom p xs i := by
  rcases Nat.lt_or_ge (i + 1) xs.length with hi | hi
  · have hi' : i < xs.length := Nat.lt_of_succ_lt hi
    have hx : xs[i]? = some xs[i] := List.getElem?_eq_getElem hi'
    have hy : xs[i + 1]? = some xs[i + 1] := List.getElem?_eq_getElem hi
    simp only [surrounded, hx, hy, Option.any_some] at h
    rw [thinFrom, thinFrom, Nat.add_sub_cancel, hx, Option.any_some, List.drop_eq_getElem_cons hi',
      List.drop_eq_getElem_cons hi, thin, if_neg (by simp [h]), List.take_succ_eq_append_getElem hi',
      List.append_assoc]
    rfl
  · rw [thinFrom_of_length_le hi, thinFrom_of_length_le (by omega)]

/-- What is surrounded goes. -/
theorem thinFrom_erase {xs : List α} {i : Nat} (h0 : 1 ≤ i) (h : surrounded p xs i = true) :
    thinFrom p (xs.eraseIdx i) i = thinFrom p xs i := by
  simp only [surrounded, Bool.and_eq_true] at h
  obtain ⟨⟨hbefore, hx⟩, hy⟩ := h
  obtain ⟨x, hxs, hx⟩ := (Option.any_eq_true _ _).1 hx
  obtain ⟨y, hys, hy⟩ := (Option.any_eq_true _ _).1 hy
  obtain ⟨hi, rfl⟩ := List.getElem?_eq_some_iff.1 hxs
  obtain ⟨hi', rfl⟩ := List.getElem?_eq_some_iff.1 hys
  have herase : xs.eraseIdx i = xs.take i ++ xs.drop (i + 1) := List.eraseIdx_eq_take_drop_succ ..
  have hlen : (xs.take i).length = i := by rw [List.length_take]; omega
  have htake : (xs.eraseIdx i).take i = xs.take i := by rw [herase, List.take_left' hlen]
  have hdrop : (xs.eraseIdx i).drop i = xs.drop (i + 1) := by rw [herase, List.drop_left' hlen]
  rw [thinFrom, thinFrom, htake, hdrop, List.getElem?_eraseIdx_of_lt (by omega), hbefore,
    List.drop_eq_getElem_cons hi, List.drop_eq_getElem_cons hi', thin_true_cons hx hy]

/-- From the second on is from the first on. -/
theorem thinFrom_one {xs : List α} : thinFrom p xs 1 = shorten p xs := by
  cases xs with
  | nil => rfl
  | cons x xs => rw [← thin_eq_shorten, thin_false_cons]; simp [thinFrom]

/-- What `shorten` leaves, by positions. -/
theorem not_surrounded_shorten (xs : List α) (i : Nat) : surrounded p (shorten p xs) (i + 1) = false := by
  rw [← thin_eq_shorten]
  exact (not_surrounded_thin false xs).1 i

theorem filter_shorten (xs : List α) : (shorten p xs).filter (fun x => !p x) = xs.filter fun x => !p x := by
  rw [← thin_eq_shorten, filter_thin]

/-! ## The ends -/

theorem length_trim_le (xs : List α) : (trim p xs).length ≤ xs.length :=
  (List.rdropWhile_prefix _ _).length_le.trans (List.dropWhile_sublist _).length_le

theorem filter_dropWhile (xs : List α) :
    (xs.dropWhile p).filter (fun x => !p x) = xs.filter fun x => !p x := by
  induction xs with
  | nil => rfl
  | cons x xs ih =>
    cases hx : p x with
    | false => rw [List.dropWhile_cons_of_neg (by simp [hx])]
    | true => rw [List.dropWhile_cons_of_pos hx, List.filter_cons_of_neg (by simp [hx]), ih]

/-- What fails `p` is not trimmed. -/
theorem filter_trim (xs : List α) : (trim p xs).filter (fun x => !p x) = xs.filter fun x => !p x := by
  rw [trim, List.rdropWhile, List.filter_reverse, filter_dropWhile, List.filter_reverse,
    List.reverse_reverse, filter_dropWhile]

end Handystats.Stretches
