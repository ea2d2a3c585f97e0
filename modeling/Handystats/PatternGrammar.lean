/-
The grammar of patterns, as trees.

A pattern is a word, or a word, a list and a pattern behind it. `text` writes a
tree down, `words` is what it stands for, and `WellFormed` says which words a
tree may have: inside a list none with a symbol of the lists, outside none with
the symbol that starts one. `openAfter` counts the lists that a text leaves
open; a well-formed tree's text leaves open what was open before
(`Pat.openAfter_text`) and is no other tree's (`Pat.unambiguous`).
-/
import Handystats.Pattern

namespace Handystats.Pattern

mutual

/-- A pattern: a preamble alone, or with a list and a postscript. -/
inductive Pat where
  | word (preamble : List Char)
  | choice (preamble : List Char) (list : Alternatives) (postscript : Pat)

/-- The patterns of a list. -/
inductive Alternatives where
  | last (pat : Pat)
  | more (pat : Pat) (rest : Alternatives)

end

mutual

/-- The text of a pattern. -/
def Pat.text : Pat → List Char
  | .word preamble => preamble
  | .choice preamble list postscript =>
    preamble ++ symListStart :: (list.text ++ symListEnd :: postscript.text)

/-- The text of a list, between its two symbols. -/
def Alternatives.text : Alternatives → List Char
  | .last pat => pat.text
  | .more pat rest => pat.text ++ symListDelim :: rest.text

end

mutual

/-- The words that a pattern stands for: the leftmost choice varies slowest. -/
def Pat.words : Pat → List (List Char)
  | .word preamble => [preamble]
  | .choice preamble list postscript =>
    list.words.flatMap fun word => postscript.words.map fun rest => preamble ++ word ++ rest

/-- The words that a list stands for, alternative by alternative. -/
def Alternatives.words : Alternatives → List (List Char)
  | .last pat => pat.words
  | .more pat rest => pat.words ++ rest.words

end

/-- The symbols that end a word, inside a list or not. -/
def Special (nested : Bool) (c : Char) : Prop :=
  c = symListStart ∨ nested = true ∧ (c = symListEnd ∨ c = symListDelim)

/-- A word without special symbols. -/
def Plain (nested : Bool) (word : List Char) : Prop := ∀ c ∈ word, ¬ Special nested c

mutual

/-- A pattern whose words have no special symbols. -/
def Pat.WellFormed (nested : Bool) : Pat → Prop
  | .word preamble => Plain nested preamble
  | .choice preamble list postscript =>
    Plain nested preamble ∧ list.WellFormed ∧ postscript.WellFormed nested

/-- A list of well-formed patterns. -/
def Alternatives.WellFormed : Alternatives → Prop
  | .last pat => pat.WellFormed true
  | .more pat rest => pat.WellFormed true ∧ rest.WellFormed

end

/-! ## Open lists -/

/-- How many lists are open after a character: an end symbol closes the
innermost, and is a character like others where none is open. -/
def openStep (depth : Nat) (c : Char) : Nat :=
  if c = symListStart then depth + 1 else if c = symListEnd then depth - 1 else depth

/-- How many lists are open after a text. -/
def openAfter (depth : Nat) (text : List Char) : Nat := text.foldl openStep depth

theorem openAfter_append (depth : Nat) (xs ys : List Char) :
    openAfter depth (xs ++ ys) = openAfter (openAfter depth xs) ys := List.foldl_append

@[simp] theorem openAfter_start (depth : Nat) (text : List Char) :
    openAfter depth (symListStart :: text) = openAfter (depth + 1) text := rfl

@[simp] theorem openAfter_end (depth : Nat) (text : List Char) :
    openAfter (depth + 1) (symListEnd :: text) = openAfter depth text := rfl

@[simp] theorem openAfter_delim (depth : Nat) (text : List Char) :
    openAfter depth (symListDelim :: text) = openAfter depth text := rfl

/-- The lists that are open where a pattern is read: none, outside of lists. -/
def DepthFits (nested : Bool) (depth : Nat) : Prop := nested = true ∨ depth = 0

theorem Plain.openAfter_eq {nested : Bool} {word : List Char} {depth : Nat} (h : Plain nested word)
    (hd : DepthFits nested depth) : openAfter depth word = depth := by
  induction word with
  | nil => rfl
  | cons c word ih =>
    have hc : ¬ Special nested c := h c (by simp)
    have hstep : openStep depth c = depth := by
      unfold openStep
      rw [if_neg fun hstart => hc (.inl hstart)]
      split_ifs with hend
      · -- An end symbol in a word: no list is open.
        rcases hd with hn | rfl
        · exact absurd (.inr ⟨hn, .inl hend⟩) hc
        · rfl
      · rfl
    change openAfter (openStep depth c) word = depth
    rw [hstep]
    exact ih fun c' hc' => h c' (by simp [hc'])

mutual

/-- A pattern leaves open what was open before. -/
theorem Pat.openAfter_text {nested : Bool} {depth : Nat} :
    ∀ {pat : Pat}, pat.WellFormed nested → DepthFits nested depth → openAfter depth pat.text = depth
  | .word preamble, h, hd => Plain.openAfter_eq h hd
  | .choice preamble list postscript, h, hd => by
    obtain ⟨hpreamble, hlist, hpostscript⟩ := h
    rw [Pat.text, openAfter_append, hpreamble.openAfter_eq hd, openAfter_start, openAfter_append,
      Alternatives.openAfter_text hlist, openAfter_end]
    exact Pat.openAfter_text hpostscript hd

/-- So does a list, where it is read. -/
theorem Alternatives.openAfter_text {depth : Nat} :
    ∀ {list : Alternatives}, list.WellFormed → openAfter (depth + 1) list.text = depth + 1
  | .last pat, h => Pat.openAfter_text h (.inl rfl)
  | .more pat rest, h => by
    rw [Alternatives.text, openAfter_append, Pat.openAfter_text h.1 (.inl rfl), openAfter_delim]
    exact Alternatives.openAfter_text h.2

end

/-! ## The grammar is unambiguous -/

/-- What may stand behind a pattern: the end or, inside a list, the end of an
alternative. -/
def Stops (nested : Bool) (rest : List Char) : Prop :=
  rest = [] ∨ nested = true ∧ ∃ c rest', rest = c :: rest' ∧ (c = symListEnd ∨ c = symListDelim)

/-- The text begins with a special symbol, or is over. -/
def StartsSpecial (nested : Bool) (rest : List Char) : Prop :=
  ∀ c rest', rest = c :: rest' → Special nested c

theorem Stops.startsSpecial {nested : Bool} {rest : List Char} (h : Stops nested rest) :
    StartsSpecial nested rest := by
  rintro c rest' rfl
  rcases h with h | ⟨hn, c', rest'', h, hc⟩
  · cases h
  · cases h
    exact .inr ⟨hn, hc⟩

theorem startsSpecial_start (nested : Bool) (rest : List Char) :
    StartsSpecial nested (symListStart :: rest) := by
  rintro c rest' ⟨⟩
  exact .inl rfl

/-- Two words before special symbols. -/
theorem plain_unique {nested : Bool} : ∀ {word word' rest rest' : List Char}, Plain nested word →
    Plain nested word' → StartsSpecial nested rest → StartsSpecial nested rest' →
    word ++ rest = word' ++ rest' → word = word' ∧ rest = rest'
  | [], [], _, _, _, _, _, _, h => ⟨rfl, h⟩
  | [], c :: word', _, _, _, hw', hr, _, h => absurd (hr c _ h) (hw' c (by simp))
  | c :: word, [], _, _, hw, _, _, hr', h => absurd (hr' c _ h.symm) (hw c (by simp))
  | c :: word, c' :: word', _, _, hw, hw', hr, hr', h => by
    obtain ⟨hc, htail⟩ := List.cons.inj h
    obtain ⟨hword, hrest⟩ := plain_unique (fun a ha => hw a (by simp [ha]))
      (fun a ha => hw' a (by simp [ha])) hr hr' htail
    exact ⟨by rw [hc, hword], hrest⟩

/-- Behind a pattern there is no list to be opened. -/
theorem Stops.ne_start {nested : Bool} {rest rest' : List Char} (h : Stops nested rest) :
    rest ≠ symListStart :: rest' := by
  rintro rfl
  rcases h with h | ⟨-, c, _, h, hc⟩
  · cases h
  · cases h
    rcases hc with hc | hc
    · exact absurd hc (by decide)
    · exact absurd hc (by decide)

theorem stops_end (rest : List Char) : Stops true (symListEnd :: rest) := .inr ⟨rfl, _, _, rfl, .inl rfl⟩

theorem stops_delim (rest : List Char) : Stops true (symListDelim :: rest) := .inr ⟨rfl, _, _, rfl, .inr rfl⟩

mutual

/-- A text is of one pattern at most, and it is clear where it ends. -/
theorem Pat.unambiguous {nested : Bool} : ∀ {pat pat' : Pat} {rest rest' : List Char},
    pat.WellFormed nested → pat'.WellFormed nested → Stops nested rest → Stops nested rest' →
    pat.text ++ rest = pat'.text ++ rest' → pat = pat' ∧ rest = rest'
  | .word w, .word w', _, _, h, h', hr, hr', heq => by
    obtain ⟨rfl, rfl⟩ := plain_unique h h' hr.startsSpecial hr'.startsSpecial heq
    exact ⟨rfl, rfl⟩
  | .word w, .choice w' list' post', _, _, h, h', hr, hr', heq => by
    rw [Pat.text, Pat.text, List.append_assoc, List.cons_append] at heq
    obtain ⟨-, hrest⟩ := plain_unique h h'.1 hr.startsSpecial (startsSpecial_start _ _) heq
    exact absurd hrest hr.ne_start
  | .choice w list post, .word w', _, _, h, h', hr, hr', heq => by
    rw [Pat.text, Pat.text, List.append_assoc, List.cons_append] at heq
    obtain ⟨-, hrest⟩ := plain_unique h.1 h' (startsSpecial_start _ _) hr'.startsSpecial heq
    exact absurd hrest.symm hr'.ne_start
  | .choice w list post, .choice w' list' post', _, _, h, h', hr, hr', heq => by
    simp only [Pat.text, List.append_assoc, List.cons_append] at heq
    obtain ⟨rfl, hrest⟩ :=
      plain_unique h.1 h'.1 (startsSpecial_start _ _) (startsSpecial_start _ _) heq
    obtain ⟨rfl, hbehind⟩ := Alternatives.unambiguous h.2.1 h'.2.1 (List.cons.inj hrest).2
    obtain ⟨rfl, rfl⟩ := Pat.unambiguous h.2.2 h'.2.2 hr hr' hbehind
    exact ⟨rfl, rfl⟩

/-- A list, up to its end symbol. -/
theorem Alternatives.unambiguous : ∀ {list list' : Alternatives} {rest rest' : List Char},
    list.WellFormed → list'.WellFormed →
    list.text ++ symListEnd :: rest = list'.text ++ symListEnd :: rest' → list = list' ∧ rest = rest'
  | .last pat, .last pat', _, _, h, h', heq => by
    obtain ⟨rfl, hrest⟩ := Pat.unambiguous h h' (stops_end _) (stops_end _) heq
    exact ⟨rfl, (List.cons.inj hrest).2⟩
  | .last pat, .more pat' list', _, _, h, h', heq => by
    rw [Alternatives.text, Alternatives.text, List.append_assoc, List.cons_append] at heq
    obtain ⟨-, hrest⟩ := Pat.unambiguous h h'.1 (stops_end _) (stops_delim _) heq
    exact absurd (List.cons.inj hrest).1 (by decide)
  | .more pat list, .last pat', _, _, h, h', heq => by
    rw [Alternatives.text, Alternatives.text, List.append_assoc, List.cons_append] at heq
    obtain ⟨-, hrest⟩ := Pat.unambiguous h.1 h' (stops_delim _) (stops_end _) heq
    exact absurd (List.cons.inj hrest).1 (by decide)
  | .more pat list, .more pat' list', _, _, h, h', heq => by
    rw [Alternatives.text, Alternatives.text, List.append_assoc, List.cons_append, List.append_assoc,
      List.cons_append] at heq
    obtain ⟨rfl, hrest⟩ := Pat.unambiguous h.1 h'.1 (stops_delim _) (stops_delim _) heq
    obtain ⟨rfl, rfl⟩ := Alternatives.unambiguous h.2 h'.2 (List.cons.inj hrest).2
    exact ⟨rfl, rfl⟩

end

end Handystats.Pattern
