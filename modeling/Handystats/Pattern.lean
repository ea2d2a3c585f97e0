/-
`expand_pattern`: the words a pattern with brace lists stands for.

    pattern ::= preamble [ '{' list '}' postscript ]
    list ::= pattern [ ',' list ]
    postscript ::= pattern

A pattern is a C string. `Expansion` carries with the words of a pattern where
it ends, which is not before its start and not behind the end of the string:
every character is read inside the string or at its terminating zero.
-/
import Mathlib.Tactic
import Handystats.Json

namespace Handystats.Pattern

/-- `SYM_LIST_DELIM`. -/
def symListDelim : Char := ','

/-- `SYM_LIST_START`. -/
def symListStart : Char := Char.ofNat 123

/-- `SYM_LIST_END`. -/
def symListEnd : Char := Char.ofNat 125

variable {pattern : List Char}

/-- `pattern[index]`, up to the terminating zero. -/
def charAt (pattern : List Char) (index : Nat) (_ : index ≤ pattern.length) : Char :=
  pattern.getD index nul

/-- Any other character than the zero is inside. -/
theorem lt_of_charAt_ne {index : Nat} {h : index ≤ pattern.length}
    (hne : charAt pattern index h ≠ nul) : index < pattern.length := by
  refine lt_of_le_of_ne h ?_
  rintro rfl
  exact hne (by simp [charAt])

theorem lt_of_charAt {index : Nat} {h : index ≤ pattern.length} {c : Char}
    (hc : charAt pattern index h = c) (hne : c ≠ nul) : index < pattern.length :=
  lt_of_charAt_ne (hc.trans_ne hne)

/-- A part of the pattern from `start` on. -/
structure Span (pattern : List Char) (start : Nat) where
  stop : Nat
  le_stop : start ≤ stop
  stop_le : stop ≤ pattern.length

/-- The words of the pattern at `start`, and where it ends. -/
structure Expansion (pattern : List Char) (start : Nat) extends Span pattern start where
  words : List (List Char)

/-- The words of the list at `start`, and where its end symbol is. -/
structure ListExpansion (pattern : List Char) (start : Nat) where
  words : List (List Char)
  stop : Nat
  le_stop : start ≤ stop
  stop_lt : stop < pattern.length

/-- The loop that looks for the end of the preamble. -/
def preambleEnd (pattern : List Char) (nested : Bool) (start : Nat) (hstart : start ≤ pattern.length) :
    Span pattern start :=
  if h : charAt pattern start hstart = nul then ⟨start, le_rfl, hstart⟩
  else if charAt pattern start hstart = symListStart then ⟨start, le_rfl, hstart⟩
  else if nested && (charAt pattern start hstart = symListEnd ||
      charAt pattern start hstart = symListDelim) then
    ⟨start, le_rfl, hstart⟩
  else
    let span := preambleEnd pattern nested (start + 1) (lt_of_charAt_ne h)
    ⟨span.stop, (Nat.le_succ start).trans span.le_stop, span.stop_le⟩
termination_by pattern.length - start
decreasing_by
  have := lt_of_charAt_ne h
  omega

/-- The text of the error at `pos`. -/
def invalidSymbol (pattern : List Char) (pos : Nat) : Fault :=
  .logicError ("Invalid symbol at pos " ++ toString pos ++ " pattern '" ++ String.ofList pattern ++ "'")

/-- Every word of the list before every word of the postscript. -/
def product (preamble : List Char) (list postscript : List (List Char)) : List (List Char) :=
  list.flatMap fun word => postscript.map fun rest => preamble ++ word ++ rest

mutual

/-- `expand_pattern(pattern, pos, nested)`. -/
def expandAt (pattern : List Char) (pos : Nat) (hpos : pos ≤ pattern.length) (nested : Bool) :
    Except Fault (Expansion pattern pos) :=
  let preamble := preambleEnd pattern nested pos hpos
  let word := (pattern.take preamble.stop).drop pos
  if hlist : charAt pattern preamble.stop preamble.stop_le = symListStart then
    have hin : preamble.stop < pattern.length := lt_of_charAt hlist (by decide)
    match expandList pattern (preamble.stop + 1) hin with
    | .error e => .error e
    | .ok list =>
      match expandAt pattern (list.stop + 1) list.stop_lt nested with
      | .error e => .error e
      | .ok postscript =>
        .ok
          { words := product word list.words postscript.words
            stop := postscript.stop
            le_stop := by
              have := preamble.le_stop
              have := list.le_stop
              have := postscript.le_stop
              omega
            stop_le := postscript.stop_le }
  else .ok { preamble with words := [word] }
termination_by 2 * (pattern.length - pos)
decreasing_by
  · have : pos ≤ (preambleEnd pattern nested pos hpos).stop := preamble.le_stop
    have : (preambleEnd pattern nested pos hpos).stop < pattern.length := hin
    omega
  · have := preamble.le_stop
    have := list.le_stop
    have := list.stop_lt
    omega

/-- The loop over the patterns of a list. -/
def expandList (pattern : List Char) (listEnd : Nat) (hlist : listEnd ≤ pattern.length) :
    Except Fault (ListExpansion pattern listEnd) :=
  match expandAt pattern listEnd hlist true with
  | .error e => .error e
  | .ok sublist =>
    if hdelim : charAt pattern sublist.stop sublist.stop_le = symListDelim then
      have hin : sublist.stop < pattern.length := lt_of_charAt hdelim (by decide)
      match expandList pattern (sublist.stop + 1) hin with
      | .error e => .error e
      | .ok rest =>
        .ok
          { words := sublist.words ++ rest.words
            stop := rest.stop
            le_stop := by
              have := sublist.le_stop
              have := rest.le_stop
              omega
            stop_lt := rest.stop_lt }
    else if hend : charAt pattern sublist.stop sublist.stop_le = symListEnd then
      .ok ⟨sublist.words, sublist.stop, sublist.le_stop, lt_of_charAt hend (by decide)⟩
    else .error (invalidSymbol pattern sublist.stop)
termination_by 2 * (pattern.length - listEnd) + 1
decreasing_by
  · omega
  · have := sublist.le_stop
    omega

end

/-- `expand_pattern(pattern)`. -/
def expandPattern (pattern : List Char) : Except Fault (List (List Char)) :=
  match expandAt pattern 0 (Nat.zero_le _) false with
  | .error e => .error e
  | .ok expansion =>
    if expansion.stop = pattern.length then .ok expansion.words
    else
      .error (.logicError ("Parsing stopped at pos " ++ toString expansion.stop ++ " pattern '" ++
        String.ofList pattern ++ "'"))

example : expandPattern "a\x7bb,c\x7bd,e\x7d\x7df".toList = .ok ["abf".toList, "acdf".toList, "acef".toList] := by
  decide +kernel

example : (expandPattern "a\x7bb".toList).toBool = false := by decide +kernel

end Handystats.Pattern
