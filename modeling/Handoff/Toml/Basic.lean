/-! # Configuration documents

A document is a table: names bound to values, in the order in which they were given. A value may be
a table again, or an array.
-/

namespace Handoff

/-- A value of a document. -/
inductive Toml where
  | string (s : String)
  | integer (n : Int)
  | float (x : Float)
  | boolean (b : Bool)
  /-- A date, a time, or both, as it was written. -/
  | moment (text : String)
  | array (items : List Toml)
  | table (entries : List (String × Toml))
deriving Inhabited

end Handoff
