import Handoff.Toml.Draft
import Handoff.Toml.Scalar

/-! # Reading documents

* `readValue`: a value; arrays may run over several lines, tables in braces may not.
* `Toml.parse?`: the entries of a document, in the order in which they were given. A table that was
  implied before its own header stands where the header is.
-/

namespace Handoff.Toml

/-- A text without the white space, the line ends and the comments at its front; `inComment` tells
whether the text begins inside a comment. -/
def skipBreaks (inComment : Bool) : List Char → List Char
  | '\r' :: '\n' :: r => skipBreaks false r
  | c :: r =>
    if inComment && isCommentChar c then skipBreaks true r
    else if c == '\n' || isGap c then skipBreaks false r
    else if c == '#' then skipBreaks true r
    else c :: r
  | [] => []

/-- What follows a word. -/
def expect (word : List Char) (l : List Char) : Option (List Char) :=
  if word.isPrefixOf l then some (l.drop word.length) else none

/-- A name's parts before the last, and the last. -/
def splitKey (names : List String) : Option (List String × String) :=
  names.getLast?.map fun k => (names.dropLast, k)

mutual

/-- A value; `depth` bounds the nesting that is still allowed, `fuel` the length of the text. -/
def readValue : (fuel depth : Nat) → List Char → Option (Toml × List Char)
  | 0, _, _ => none
  | fuel + 1, depth, l =>
    match l with
    | '"' :: _ => (readString l).map fun x => (string x.1, x.2)
    | '\'' :: _ => (readString l).map fun x => (string x.1, x.2)
    | 't' :: r => (expect "rue".toList r).map (boolean true, ·)
    | 'f' :: r => (expect "alse".toList r).map (boolean false, ·)
    | '[' :: r =>
      match depth with
      | 0 => none
      | depth + 1 => (readItems fuel depth r).map fun x => (array x.1, x.2)
    | '\x7b' :: r =>
      match depth with
      | 0 => none
      | depth + 1 =>
        match skipGap r with
        | '\x7d' :: r => some (table [], r)
        | r => do
          let (pairs, r) ← readPairs fuel depth r
          let entries ← Node.ofPairs pairs []
          return (table (Node.entriesToToml entries), r)
    | l => readNumber l

/-- The items of an array and its closing bracket. A comma may follow the last item. -/
def readItems : (fuel depth : Nat) → List Char → Option (List Toml × List Char)
  | 0, _, _ => none
  | fuel + 1, depth, l =>
    match skipBreaks false l with
    | ']' :: r => some ([], r)
    | l => do
      let (v, r) ← readValue fuel depth l
      match skipBreaks false r with
      | ']' :: r => return ([v], r)
      | ',' :: r =>
        let (vs, r) ← readItems fuel depth r
        return (v :: vs, r)
      | _ => none

/-- The entries of a table in braces and its closing brace, at least one entry. -/
def readPairs : (fuel depth : Nat) → List Char →
    Option (List (List String × String × Toml) × List Char)
  | 0, _, _ => none
  | fuel + 1, depth, l => do
    let (names, r) ← readKey l
    let (path, k) ← splitKey names
    let r ← after '=' r
    let (v, r) ← readValue fuel depth (skipGap r)
    match skipGap r with
    | '\x7d' :: r => return ([(path, k, v)], r)
    | ',' :: r =>
      let (ps, r) ← readPairs fuel depth r
      return ((path, k, v) :: ps, r)
    | _ => none

end

/-- The lines of a document, one after the other. -/
def readLines : (fuel : Nat) → Draft → List Char → Option Draft
  | 0, _, _ => none
  | fuel + 1, d, l =>
    match skipGap l with
    | [] => some d
    | '[' :: '[' :: r => do
      let (names, r) ← readKey r
      let (path, k) ← splitKey names
      let r ← expect [']', ']'] r
      let r ← endLine? r
      readLines fuel (← d.openRow path k) r
    | '[' :: r => do
      let (names, r) ← readKey r
      let (path, k) ← splitKey names
      let r ← expect [']'] r
      let r ← endLine? r
      readLines fuel (← d.openTable path k) r
    | c :: r =>
      if c = '#' || c = '\n' || c = '\r' then do
        let r ← endLine? (c :: r)
        readLines fuel d r
      else do
        let (names, r) ← readKey (c :: r)
        let (path, k) ← splitKey names
        let r ← after '=' r
        let (v, r) ← readValue fuel maxDepth (skipGap r)
        let r ← endLine? r
        readLines fuel (← d.addPair path k v) r

/-- A text without the byte order mark at its front. -/
def skipMark : List Char → List Char
  | '\ufeff' :: r => r
  | l => l

/-- **The entries of a document**, if the text is one. -/
def parse? (s : String) : Option (List (String × Toml)) := do
  let d ← readLines (s.length + 1) .empty (skipMark s.toList)
  d.finish

end Handoff.Toml
