import Handoff.KeyedList

/-! # Structured values

The values that attributes hold, operations take and jobs return.

A whole number is exact as long as it fits into 64 bits, signed or unsigned; every other number is a
double. The members of an object stand in the order of their keys, except where a fixed order of
fields is wanted (`Json.ofFields`).
-/

namespace Handoff

/-- A structured value. -/
inductive Json where
  | null
  | bool (b : Bool)
  | int (n : Int)
  | float (x : Float)
  | str (s : String)
  | arr (items : List Json)
  | obj (members : List (String × Json))
deriving Inhabited

namespace Json

/-- The whole numbers that are kept exact. -/
def IntInRange (n : Int) : Prop := -0x8000000000000000 ≤ n ∧ n < 0x10000000000000000

instance (n : Int) : Decidable (IntInRange n) := by
  unfold IntInRange; infer_instance

/-- An object from its members in any order; of two members with one key the later one counts. -/
def ofMembers (members : List (String × Json)) : Json :=
  obj (members.foldl (fun l kv => KeyedList.insert kv.1 kv.2 l) [])

/-- An object whose fields keep the given order. -/
def ofFields (fields : List (String × Json)) : Json := obj fields

/-- The member with key `k`. -/
def get? (k : String) : Json → Option Json
  | obj ms => KeyedList.find? k ms
  | _ => none

/-- The text of a string. -/
def str? : Json → Option String
  | str s => some s
  | _ => none

/-- A whole number that fits into 64 bits with a sign. -/
def int64? : Json → Option Int64
  | int n => if n < 0x8000000000000000 then some (Int64.ofInt n) else none
  | _ => none

end Json

end Handoff
