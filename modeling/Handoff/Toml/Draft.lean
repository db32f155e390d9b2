import Handoff.Toml.Basic

/-! # Tables under construction

While a document is read it has to be known how each table came about, because that decides whether
it may be added to. A table is opened by its own header, implied by the header of a table inside it,
or made by a name with points.

* `Node.modify`: follows names into a table, making the tables that are missing.
* `Draft`: the document read so far, with the table that is being filled kept apart.
* `Draft.addPair`, `Draft.openTable`, `Draft.openRow`, `Draft.finish`: what the lines of a document
  do to it. They answer nothing if a name is given twice or cannot be added to.
-/

namespace Handoff.Toml

/-- How a table came about. -/
inductive Origin where
  /-- By its own header. -/
  | header
  /-- By the header of a table inside it. -/
  | implied
  /-- By a name with points. -/
  | points
deriving DecidableEq, Repr

/-- A value under construction. -/
inductive Node where
  | leaf (v : Toml)
  | table (origin : Origin) (entries : List (String × Node))
  /-- Tables that were opened one after the other under one name. -/
  | rows (tables : List (List (String × Node)))

namespace Node

/-- The entries of a table under construction. -/
abbrev Entries := List (String × Node)

/-- The entries with `n` bound to `k` in the place where `k` stands. -/
def replace (k : String) (n : Node) (es : Entries) : Entries :=
  es.map fun e => if e.1 = k then (k, n) else e

/-- **Follows names into a table** and changes the entries found there, which may tell something
about them. Missing tables are made, with the given origin. A name with points does not lead into a
table with its own header. -/
def modify {α : Type} (made : Origin) (f : Origin → Entries → Option (α × Entries)) :
    Origin → List String → Entries → Option (α × Entries)
  | origin, [], es => f origin es
  | _, k :: ks, es =>
    match es.lookup k with
    | none => (modify made f made ks []).map fun x => (x.1, es ++ [(k, table made x.2)])
    | some (leaf _) => none
    | some (table origin inner) =>
      if made = .points ∧ origin = .header then none
      else (modify made f origin ks inner).map fun x => (x.1, replace k (table origin x.2) es)
    | some (rows ts) =>
      match ts.getLast? with
      | none => none
      | some t =>
        (modify made f .header ks t).map fun x => (x.1, replace k (rows (ts.dropLast ++ [x.2])) es)

/-- Binds a value to a name in a table. A table made by a name with points takes only such names,
and no other table does; `pointed` tells whether there are parts before the name. -/
def bind (pointed : Bool) (k : String) (v : Toml) (origin : Origin) (es : Entries) :
    Option (Unit × Entries) :=
  if (origin = .points) ≠ pointed then none
  else if (es.lookup k).isSome then none
  else some ((), es ++ [(k, leaf v)])

/-- Binds a value to a name that may have points: `path` are the parts before the last. -/
def addPair (path : List String) (k : String) (v : Toml) (es : Entries) : Option Entries :=
  (modify .points (bind (!path.isEmpty) k v) .header path es).map (·.2)

mutual

/-- The value that was constructed. -/
def toToml : Node → Toml
  | leaf v => v
  | table _ es => .table (entriesToToml es)
  | rows ts => .array (rowsToToml ts)

/-- The entries that were constructed. -/
def entriesToToml : List (String × Node) → List (String × Toml)
  | [] => []
  | e :: es => entryToToml e :: entriesToToml es

/-- The entry that was constructed. -/
def entryToToml : String × Node → String × Toml
  | (k, n) => (k, toToml n)

/-- The tables that were constructed under one name. -/
def rowsToToml : List (List (String × Node)) → List Toml
  | [] => []
  | es :: ts => .table (entriesToToml es) :: rowsToToml ts

end

/-- Binds values to names one after the other. -/
def ofPairs : List (List String × String × Toml) → Entries → Option Entries
  | [], es => some es
  | (path, k, v) :: ps, es => (addPair path k v es).bind (ofPairs ps)

end Node

/-- Where the table that is being filled belongs: the names that lead to it, and whether it is one
of several under its name. -/
structure Place where
  path : List String
  key : String
  isRow : Bool

/-- A document under construction; as long as no header was read there is no place. -/
structure Draft where
  root : Node.Entries
  current : Node.Entries
  place : Option Place

namespace Draft

/-- The document before its first line. -/
def empty : Draft := ⟨[], [], none⟩

/-- Puts a complete table into the entries around it. -/
def put (p : Place) (table : Node.Entries) (_ : Origin) (es : Node.Entries) :
    Option (Unit × Node.Entries) :=
  match es.lookup p.key with
  | none => some ((), es ++ [(p.key, if p.isRow then .rows [table] else .table .header table)])
  | some (.rows ts) =>
    if p.isRow then some ((), Node.replace p.key (.rows (ts ++ [table])) es) else none
  | some _ => none

/-- The entries of the document, with the table that was being filled in its place. -/
def close (d : Draft) : Option Node.Entries :=
  match d.place with
  | none => some d.current
  | some p => (Node.modify .implied (put p d.current) .header p.path d.root).map (·.2)

/-- A line that binds a value to a name. -/
def addPair (d : Draft) (path : List String) (k : String) (v : Toml) : Option Draft :=
  (Node.addPair path k v d.current).map fun es => { d with current := es }

/-- Takes an implied table out of the entries around it; a table that is not there is empty. -/
def take (k : String) (_ : Origin) (es : Node.Entries) : Option (Node.Entries × Node.Entries) :=
  match es.lookup k with
  | none => some ([], es)
  | some (.table .implied inner) => some (inner, es.filter (·.1 != k))
  | some _ => none

/-- A header: the table is filled from now on. If it was implied before it keeps its entries, and
takes its place anew when it is complete. -/
def openTable (d : Draft) (path : List String) (k : String) : Option Draft := do
  let root ← d.close
  let (inner, root) ← Node.modify .implied (take k) .header path root
  return ⟨root, inner, some ⟨path, k, false⟩⟩

/-- Makes room for tables under one name. -/
def reserve (k : String) (_ : Origin) (es : Node.Entries) : Option (Unit × Node.Entries) :=
  match es.lookup k with
  | none => some ((), es ++ [(k, .rows [])])
  | some (.rows _) => some ((), es)
  | some _ => none

/-- A header of one of several tables under a name: a new one is filled from now on. -/
def openRow (d : Draft) (path : List String) (k : String) : Option Draft := do
  let root ← d.close
  let (_, root) ← Node.modify .implied (reserve k) .header path root
  return ⟨root, [], some ⟨path, k, true⟩⟩

/-- The document, when there are no more lines. -/
def finish (d : Draft) : Option (List (String × Toml)) := d.close.map Node.entriesToToml

end Draft

end Handoff.Toml
