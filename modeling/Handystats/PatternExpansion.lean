/-
`expand_pattern` expands the grammar.

`expandAt_expands` follows the parser: where it returns, it has read the text
of a well-formed pattern and returns its words; where it throws, it has come to
the end of the string inside a list. `expand_pattern_spec` is what that means for
a whole string.
-/
import Handystats.PatternGrammar

namespace Handystats.Pattern

variable {pattern : List Char}

/-! ## Characters -/

/-- At any other character than the zero. -/
theorem drop_of_charAt {index : Nat} {h : index ≤ pattern.length} {c : Char}
    (hc : charAt pattern index h = c) (hne : c ≠ nul) : pattern.drop index = c :: pattern.drop (index + 1) := by
  have hin : index < pattern.length := lt_of_charAt hc hne
  simp only [charAt, List.getD_eq_getElem?_getD, List.getElem?_eq_getElem hin, Option.getD_some] at hc
  rw [List.drop_eq_getElem_cons hin, hc]

/-- A string without zeros ends at its zero. -/
theorem eq_length_of_charAt {index : Nat} {h : index ≤ pattern.length} (hp : nul ∉ pattern)
    (hc : charAt pattern index h = nul) : index = pattern.length := by
  by_contra hne
  have hin : index < pattern.length := by omega
  simp only [charAt, List.getD_eq_getElem?_getD, List.getElem?_eq_getElem hin, Option.getD_some] at hc
  exact hp (hc ▸ List.getElem_mem hin)

/-- The text from one position to another. -/
def slice (pattern : List Char) (start stop : Nat) : List Char := (pattern.take stop).drop start

theorem slice_self (start : Nat) : slice pattern start start = [] := by
  simp [slice]

theorem slice_cons {start stop : Nat} {c : Char} (hstop : start < stop)
    (hdrop : pattern.drop start = c :: pattern.drop (start + 1)) :
    slice pattern start stop = c :: slice pattern (start + 1) stop := by
  rw [slice, slice, List.drop_take, List.drop_take, hdrop, show stop - start = stop - (start + 1) + 1 by omega,
    List.take_succ_cons]

/-- The loop for the preamble reads a word up to a special symbol or the end. -/
theorem preambleEnd_spec (nested : Bool) (start : Nat) (hstart : start ≤ pattern.length) :
    Plain nested (slice pattern start (preambleEnd pattern nested start hstart).stop) ∧
      pattern.drop start = slice pattern start (preambleEnd pattern nested start hstart).stop ++
        pattern.drop (preambleEnd pattern nested start hstart).stop ∧
      (charAt pattern _ (preambleEnd pattern nested start hstart).stop_le = nul ∨
        Special nested (charAt pattern _ (preambleEnd pattern nested start hstart).stop_le)) := by
  fun_induction preambleEnd pattern nested start hstart with
  | case1 start hstart h =>
    rw [slice_self]
    exact ⟨by simp [Plain], rfl, .inl h⟩
  | case2 start hstart h hlist =>
    rw [slice_self]
    exact ⟨by simp [Plain], rfl, .inr (.inl hlist)⟩
  | case3 start hstart h hlist hend =>
    rw [slice_self]
    simp only [Bool.and_eq_true, Bool.or_eq_true, decide_eq_true_eq] at hend
    exact ⟨by simp [Plain], rfl, .inr (.inr hend)⟩
  | case4 start hstart h hlist hend span ih =>
    obtain ⟨hplain, hdrop, hstop⟩ := ih
    simp only [Bool.and_eq_true, Bool.or_eq_true, decide_eq_true_eq] at hend
    have hread := drop_of_charAt (h := hstart) rfl h
    have hslice : slice pattern start span.stop =
        charAt pattern start hstart :: slice pattern (start + 1) span.stop :=
      slice_cons (Nat.lt_of_succ_le span.le_stop) hread
    refine ⟨?_, ?_, hstop⟩
    · rw [hslice]
      intro c hc
      rcases List.mem_cons.1 hc with rfl | hc
      · intro h
        rcases h with hspecial | hspecial
        · exact hlist hspecial
        · exact hend hspecial
      · exact hplain c hc
    · rw [hslice, hread, hdrop]
      rfl

/-! ## The parser -/

/-- What `expandAt` does: it reads a pattern, or comes to the end of the string
with more lists open than before. -/
def Expands (pattern : List Char) (pos : Nat) (nested : Bool) : Except Fault (Expansion pattern pos) → Prop
  | .ok expansion =>
    ∃ pat : Pat, pat.WellFormed nested ∧ pattern.drop pos = pat.text ++ pattern.drop expansion.stop ∧
      expansion.words = pat.words ∧ Stops nested (pattern.drop expansion.stop)
  | .error f =>
    f = invalidSymbol pattern pattern.length ∧
      ∀ depth, DepthFits nested depth → depth < openAfter depth (pattern.drop pos)

/-- What `expandList` does, in a list that is open. -/
def ExpandsList (pattern : List Char) (listEnd : Nat) : Except Fault (ListExpansion pattern listEnd) → Prop
  | .ok expansion =>
    ∃ list : Alternatives, list.WellFormed ∧
      pattern.drop listEnd = list.text ++ symListEnd :: pattern.drop (expansion.stop + 1) ∧
      expansion.words = list.words
  | .error f =>
    f = invalidSymbol pattern pattern.length ∧ ∀ depth, depth < openAfter (depth + 1) (pattern.drop listEnd)

theorem expandAt_expands (hp : nul ∉ pattern) :
    (∀ pos hpos nested, Expands pattern pos nested (expandAt pattern pos hpos nested)) ∧
      ∀ listEnd hlist, ExpandsList pattern listEnd (expandList pattern listEnd hlist) := by
  refine expandAt.mutual_induct pattern
    (fun pos hpos nested => Expands pattern pos nested (expandAt pattern pos hpos nested))
    (fun listEnd hlist => ExpandsList pattern listEnd (expandList pattern listEnd hlist))
    ?listFails ?postscriptFails ?choice ?word ?firstFails ?restFails ?more ?last ?invalid
  case listFails =>
    intro pos hpos nested preamble hlist hin e he ihlist
    obtain ⟨hplain, hdrop, -⟩ := preambleEnd_spec nested pos hpos
    rw [he] at ihlist
    have he' : expandList pattern ((preambleEnd pattern nested pos hpos).stop + 1) hin = .error e := he
    rw [expandAt, dif_pos hlist]
    simp only [he']
    refine ⟨ihlist.1, fun depth hd => ?_⟩
    rw [hdrop, openAfter_append, hplain.openAfter_eq hd, drop_of_charAt hlist (by decide), openAfter_start]
    exact ihlist.2 depth
  case postscriptFails =>
    intro pos hpos nested preamble hlist hin list hl e he ihlist ihpost
    obtain ⟨hplain, hdrop, -⟩ := preambleEnd_spec nested pos hpos
    rw [hl] at ihlist
    rw [he] at ihpost
    obtain ⟨alternatives, hwell, htext, -⟩ := ihlist
    have hl' : expandList pattern ((preambleEnd pattern nested pos hpos).stop + 1) hin = .ok list := hl
    rw [expandAt, dif_pos hlist]
    simp only [hl', he]
    refine ⟨ihpost.1, fun depth hd => ?_⟩
    rw [hdrop, openAfter_append, hplain.openAfter_eq hd, drop_of_charAt hlist (by decide), openAfter_start,
      htext, openAfter_append, Alternatives.openAfter_text hwell, openAfter_end]
    exact ihpost.2 depth hd
  case choice =>
    intro pos hpos nested preamble hlist hin list hl postscript hpost ihlist ihpost
    obtain ⟨hplain, hdrop, -⟩ := preambleEnd_spec nested pos hpos
    rw [hl] at ihlist
    rw [hpost] at ihpost
    obtain ⟨alternatives, hwell, htext, hwords⟩ := ihlist
    obtain ⟨pat, hpat, htext', hwords', hstops⟩ := ihpost
    have hl' : expandList pattern ((preambleEnd pattern nested pos hpos).stop + 1) hin = .ok list := hl
    rw [expandAt, dif_pos hlist]
    simp only [hl', hpost]
    refine ⟨.choice (slice pattern pos preamble.stop) alternatives pat, ⟨hplain, hwell, hpat⟩, ?_, ?_, hstops⟩
    · rw [hdrop, drop_of_charAt hlist (by decide), htext, htext', Pat.text]
      simp only [List.append_assoc, List.cons_append]
      rfl
    · simp only [product, hwords, hwords', Pat.words]
      rfl
  case word =>
    intro pos hpos nested preamble hlist
    obtain ⟨hplain, hdrop, hend⟩ := preambleEnd_spec nested pos hpos
    rw [expandAt, dif_neg hlist]
    refine ⟨.word (slice pattern pos preamble.stop), hplain, hdrop, rfl, ?_⟩
    change Stops nested (pattern.drop preamble.stop)
    rcases hend with hend | hend | ⟨hnested, hend⟩
    · exact .inl (by rw [eq_length_of_charAt hp hend, List.drop_length])
    · exact absurd hend hlist
    · refine .inr ⟨hnested, _, _, drop_of_charAt rfl ?_, hend⟩
      rcases hend with hend | hend
      · rw [hend]
        decide
      · rw [hend]
        decide
  case firstFails =>
    intro listEnd hlist e he ih
    rw [he] at ih
    rw [expandList, he]
    exact ⟨ih.1, fun depth => (Nat.lt_succ_self depth).trans (ih.2 (depth + 1) (.inl rfl))⟩
  case restFails =>
    intro listEnd hlist sublist hsub hdelim hin e he ih ihrest
    rw [hsub] at ih
    rw [he] at ihrest
    obtain ⟨pat, hpat, htext, -, -⟩ := ih
    rw [expandList, hsub]
    simp only [dif_pos hdelim, he]
    refine ⟨ihrest.1, fun depth => ?_⟩
    rw [htext, openAfter_append, Pat.openAfter_text hpat (.inl rfl), drop_of_charAt hdelim (by decide),
      openAfter_delim]
    exact ihrest.2 depth
  case more =>
    intro listEnd hlist sublist hsub hdelim hin rest hrest ih ihrest
    rw [hsub] at ih
    rw [hrest] at ihrest
    obtain ⟨pat, hpat, htext, hwords, -⟩ := ih
    obtain ⟨alternatives, hwell, htext', hwords'⟩ := ihrest
    rw [expandList, hsub]
    simp only [dif_pos hdelim, hrest]
    refine ⟨.more pat alternatives, ⟨hpat, hwell⟩, ?_, ?_⟩
    · rw [htext, drop_of_charAt hdelim (by decide), htext', Alternatives.text, List.append_assoc,
        List.cons_append]
    · simp only [hwords, hwords', Alternatives.words]
  case last =>
    intro listEnd hlist sublist hsub hdelim hend ih
    rw [hsub] at ih
    obtain ⟨pat, hpat, htext, hwords, -⟩ := ih
    rw [expandList, hsub]
    simp only [dif_neg hdelim, dif_pos hend]
    refine ⟨.last pat, hpat, ?_, hwords⟩
    rw [htext, drop_of_charAt hend (by decide), Alternatives.text]
  case invalid =>
    intro listEnd hlist sublist hsub hdelim hend ih
    rw [hsub] at ih
    obtain ⟨pat, hpat, htext, -, hstops⟩ := ih
    -- A pattern in a list stops at a symbol of the list or at the end.
    have hover : sublist.stop = pattern.length := by
      rcases hstops with hover | ⟨-, c, rest, hrest, hc⟩
      · exact le_antisymm sublist.stop_le (List.drop_eq_nil_iff.1 hover)
      · have hchar : charAt pattern sublist.stop sublist.stop_le = c := by
          have hhead := congrArg List.head? hrest
          rw [List.head?_drop, List.head?_cons] at hhead
          rw [charAt, List.getD_eq_getElem?_getD, hhead, Option.getD_some]
        rcases hc with rfl | rfl
        · exact absurd hchar hend
        · exact absurd hchar hdelim
    rw [expandList, hsub]
    simp only [dif_neg hdelim, dif_neg hend]
    refine ⟨by rw [hover], fun depth => ?_⟩
    rw [htext, hover, List.drop_length, List.append_nil, Pat.openAfter_text hpat (.inl rfl)]
    exact Nat.lt_succ_self depth

/-! ## Whole strings -/

/-- **Pattern expansion accepts exactly the brace grammar**: it throws where a
list stays open, at the end of the string, and otherwise reads all of the
string, which is then the text of one pattern, and returns that pattern's
words. -/
theorem expand_pattern_spec (hp : nul ∉ pattern) :
    ((∃ what, expandPattern pattern = .error (.logicError what)) ↔ 0 < openAfter 0 pattern) ∧
    (∀ f, expandPattern pattern = .error f → f = invalidSymbol pattern pattern.length) ∧
    (∀ expansion, expandAt pattern 0 (Nat.zero_le _) false = .ok expansion →
      expansion.stop = pattern.length) ∧
    (openAfter 0 pattern = 0 → ∃ pat : Pat, pat.WellFormed false ∧ pat.text = pattern ∧
      ∀ pat' : Pat, pat'.WellFormed false → pat'.text = pattern →
        pat' = pat ∧ expandPattern pattern = .ok pat'.words) := by
  have hexpands := (expandAt_expands hp).1 0 (Nat.zero_le _) false
  cases hrun : expandAt pattern 0 (Nat.zero_le _) false with
  | error f =>
    rw [hrun] at hexpands
    obtain ⟨rfl, hopen⟩ := hexpands
    have hopen : 0 < openAfter 0 pattern := hopen 0 (.inr rfl)
    have hresult : expandPattern pattern = .error (invalidSymbol pattern pattern.length) := by
      rw [expandPattern, hrun]
    refine ⟨⟨fun _ => hopen, fun _ => ⟨_, hresult⟩⟩, fun f hf => ?_, (fun _ h => by cases h), fun h => ?_⟩
    · rw [hresult] at hf
      cases hf
      rfl
    · omega
  | ok expansion =>
    rw [hrun] at hexpands
    obtain ⟨pat, hpat, htext, hwords, hstops⟩ := hexpands
    have hover : pattern.drop expansion.stop = [] := by
      rcases hstops with hover | ⟨hnested, -⟩
      · exact hover
      · cases hnested
    rw [List.drop_zero, hover, List.append_nil] at htext
    have hstop : expansion.stop = pattern.length :=
      le_antisymm expansion.stop_le (List.drop_eq_nil_iff.1 hover)
    have hresult : expandPattern pattern = .ok pat.words := by
      rw [expandPattern, hrun, ← hwords]
      exact if_pos hstop
    have hclosed : openAfter 0 pattern = 0 := by
      rw [htext]
      exact Pat.openAfter_text hpat (.inr rfl)
    refine ⟨⟨?_, fun h => by omega⟩, ?_, ?_, fun _ => ⟨pat, hpat, htext.symm, fun pat' hpat' htext' => ?_⟩⟩
    · intro h
      obtain ⟨what, h⟩ := h
      rw [hresult] at h
      cases h
    · intro f h
      rw [hresult] at h
      cases h
    · rintro _ ⟨⟩
      exact hstop
    · have hsame : pat'.text ++ [] = pat.text ++ [] := by rw [htext', ← htext]
      obtain ⟨rfl, -⟩ := Pat.unambiguous hpat' hpat (.inl rfl) (.inl rfl) hsame
      exact ⟨rfl, hresult⟩

theorem expand_pattern_sample : ∃ pat : Pat,
    pat.WellFormed false ∧ pat.text = "a\x7b,b\x7dc\x7d".toList ∧
      expandPattern "a\x7b,b\x7dc\x7d".toList = .ok pat.words := by
  obtain ⟨-, -, -, h⟩ := expand_pattern_spec (show nul ∉ "a\x7b,b\x7dc\x7d".toList by decide +kernel)
  obtain ⟨pat, hpat, htext, h⟩ := h (by decide +kernel)
  exact ⟨pat, hpat, htext, (h pat hpat htext).2⟩

end Handystats.Pattern
