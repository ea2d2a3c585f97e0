/-
How a call of the library can fail to return: it throws one of the
exceptions of the source, or runs into undefined behaviour.
-/
import Mathlib.Algebra.Group.Nat.Defs
import Mathlib.Data.List.Basic

namespace Handystats

/-- Why a call does not return. -/
inductive Fault where
  /-- `statistics::invalid_tag_error`. -/
  | invalidTag
  /-- `std::logic_error`, with its text. -/
  | logicError (what : String)
  /-- `std::length_error` from `std::vector::reserve`. -/
  | lengthError
  /-- No exception: an element that does not exist is read, or a pointer to
  no object is followed. -/
  | undefinedBehaviour
  deriving DecidableEq, Repr

/-- The faults that are C++ exceptions. -/
def Fault.isException : Fault → Bool
  | .undefinedBehaviour => false
  | _ => true

/-- Subtraction of `size_t` values. -/
def sizeSub (a b : Nat) : Nat := (a + (2 ^ 64 - b)) % 2 ^ 64

/-- `vector[index]`: undefined outside the vector. -/
def elementAt {α : Type} (xs : List α) (index : Nat) : Except Fault α :=
  match xs[index]? with
  | some x => .ok x
  | none => .error .undefinedBehaviour

theorem elementAt_ok {α : Type} {xs : List α} {i : Nat} {x : α} :
    elementAt xs i = .ok x ↔ xs[i]? = some x := by
  unfold elementAt
  cases xs[i]? <;> simp

theorem elementAt_of_lt {α : Type} {xs : List α} {i : Nat} (h : i < xs.length) :
    elementAt xs i = .ok xs[i] := by
  simp [elementAt, List.getElem?_eq_getElem h]

theorem elementAt_of_le {α : Type} {xs : List α} {i : Nat} (h : xs.length ≤ i) :
    elementAt xs i = .error .undefinedBehaviour := by
  simp [elementAt, List.getElem?_eq_none h]

end Handystats
