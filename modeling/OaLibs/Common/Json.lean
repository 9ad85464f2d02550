import Mathlib.Tactic

/-!
# JSON values

`serde_json::Value`. An object is the list of its members; `get` looks a member up by its name.
-/

namespace OaLibs

/-- A JSON number; a float is given by its bits. -/
inductive Number
  | posInt (n : UInt64)
  | negInt (n : Int64)
  | float (bits : UInt64)
  deriving DecidableEq

/-- A JSON value. -/
inductive Json
  | null
  | bool (b : Bool)
  | number (n : Number)
  | string (s : String)
  | array (elems : List Json)
  | object (members : List (String × Json))

namespace Json

/-- `Value::get` with a string index. -/
def get (key : String) : Json → Option Json
  | object members => members.lookup key
  | _ => none

/-- `Value::as_bool`. -/
def asBool : Json → Option Bool
  | bool b => some b
  | _ => none

/-- `Value::as_str`. -/
def asStr : Json → Option String
  | string s => some s
  | _ => none

theorem get_eq_some_iff {key : String} {v w : Json} :
    v.get key = some w ↔ ∃ members, v = object members ∧ members.lookup key = some w := by
  cases v <;> simp [get]

theorem asBool_eq_some_iff {v : Json} {b : Bool} : v.asBool = some b ↔ v = bool b := by
  cases v <;> simp [asBool]

end Json

end OaLibs
