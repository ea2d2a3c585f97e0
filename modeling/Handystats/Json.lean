/-
JSON values, as far as the configuration looks at them: the tree that
`rapidjson` delivers and the queries of `rapidjson::Value`.
-/
import Mathlib.Data.List.Basic
import Handystats.Fault

namespace Handystats

/-- The end of a C string. -/
def nul : Char := Char.ofNat 0

/-- What a C string function sees of a string: its characters up to the first
zero. -/
def cString (s : String) : String := String.ofList (s.toList.takeWhile (· ≠ nul))

/-- `rapidjson::Value`. Of the numbers only those count that `IsUint64` is
true of. -/
inductive Json where
  | null
  | bool (value : Bool)
  | uint64 (value : UInt64)
  | number
  | string (value : String)
  | array (values : List Json)
  | object (members : List (String × Json))

namespace Json

/-- `IsObject`. -/
def isObject : Json → Bool
  | .object _ => true
  | _ => false

/-- The members of an object, in the document's order. -/
def members : Json → List (String × Json)
  | .object members => members
  | _ => []

/-- `HasMember` and, where it answers yes, `operator[]`: the first member of
that name. `rapidjson` asserts that it is asked about an object. -/
def find (config : Json) (name : String) : Except Fault (Option Json) :=
  match config with
  | .object members => .ok (members.lookup name)
  | _ => .error .undefinedBehaviour

theorem find_of_isObject {config : Json} (h : config.isObject = true) (name : String) :
    config.find name = .ok (config.members.lookup name) := by
  cases config with
  | object members => rfl
  | _ => cases h

end Json

end Handystats
