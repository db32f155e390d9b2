import Handoff.Json.Number
import Handoff.Text.Hex

/-! # Reading structured values

* `Json.parse?`: the value a text stands for. Nesting ends at a depth of 127.
* `readString`: a string without its first quote. It is read in two steps: `scan` undoes the escapes
  and keeps escaped code units apart, `joinUnits` makes characters of the units and refuses a half
  pair.
-/

namespace Handoff.Json

/-- The white space between the parts of a value. -/
def isGap (c : Char) : Bool := c == ' ' || c == '\n' || c == '\t' || c == '\r'

/-- A text without the white space at its front. -/
def skipGap (l : List Char) : List Char := l.dropWhile isGap

/-! ### Strings -/

/-- A part of a string: a character, or a code unit that was escaped by its number. -/
inductive Part where
  | char (c : Char)
  | unit (n : Nat)
deriving DecidableEq, Repr

/-- The character that a letter after a backslash stands for. -/
def escape? : Char → Option Char
  | '"' => some '"'
  | '\\' => some '\\'
  | '/' => some '/'
  | 'b' => some '\x08'
  | 'f' => some '\x0c'
  | 'n' => some '\n'
  | 'r' => some '\r'
  | 't' => some '\t'
  | _ => none

/-- The parts up to the closing quote, and what follows it. -/
def scan : List Char → Option (List Part × List Char)
  | [] => none
  | '"' :: r => some ([], r)
  | '\\' :: 'u' :: a :: b :: c :: d :: r =>
    match Text.hexValue? [a, b, c, d] with
    | none => none
    | some n => (scan r).map fun x => (.unit n :: x.1, x.2)
  | '\\' :: c :: r =>
    match escape? c with
    | none => none
    | some e => (scan r).map fun x => (.char e :: x.1, x.2)
  | c :: r =>
    if c.toNat < 0x20 || c = '\\' then none else (scan r).map fun x => (.char c :: x.1, x.2)

/-- Whether a code unit is the first half of a pair. -/
def isHighHalf (n : Nat) : Bool := 0xD800 ≤ n && n ≤ 0xDBFF

/-- Whether a code unit is the second half of a pair. -/
def isLowHalf (n : Nat) : Bool := 0xDC00 ≤ n && n ≤ 0xDFFF

/-- The characters of a string; code units that are halves have to come in pairs. -/
def joinUnits : List Part → Option (List Char)
  | [] => some []
  | .char c :: r => (joinUnits r).map (c :: ·)
  | .unit hi :: .unit lo :: r =>
    if isHighHalf hi then
      if isLowHalf lo then
        (joinUnits r).map (Char.ofNat ((hi - 0xD800) * 0x400 + (lo - 0xDC00) + 0x10000) :: ·)
      else none
    else if isLowHalf hi then none
    else (joinUnits (.unit lo :: r)).map (Char.ofNat hi :: ·)
  | .unit n :: r =>
    if isHighHalf n || isLowHalf n then none else (joinUnits r).map (Char.ofNat n :: ·)

/-- Takes a string off the front of a text whose first quote is already taken. -/
def readString (l : List Char) : Option (String × List Char) := do
  let (parts, r) ← scan l
  let cs ← joinUnits parts
  return (String.ofList cs, r)

/-! ### Values -/

/-- Takes the characters of `word` off the front. -/
def expect (word : List Char) (l : List Char) : Option (List Char) :=
  if word.isPrefixOf l then some (l.drop word.length) else none

mutual

/-- Takes a value off the front of a text; `depth` bounds the nesting that is still allowed, `fuel`
the length of the text. -/
def readValue : (fuel depth : Nat) → List Char → Option (Json × List Char)
  | 0, _, _ => none
  | fuel + 1, depth, l =>
    match skipGap l with
    | 'n' :: r => (expect "ull".toList r).map (null, ·)
    | 't' :: r => (expect "rue".toList r).map (bool true, ·)
    | 'f' :: r => (expect "alse".toList r).map (bool false, ·)
    | '"' :: r => (readString r).map fun x => (str x.1, x.2)
    | '[' :: r =>
      match depth with
      | 0 => none
      | depth + 1 =>
        match skipGap r with
        | ']' :: r => some (arr [], r)
        | r => (readItems fuel depth r).map fun x => (arr x.1, x.2)
    | '\x7b' :: r =>
      match depth with
      | 0 => none
      | depth + 1 =>
        match skipGap r with
        | '\x7d' :: r => some (obj [], r)
        | r => (readMembers fuel depth r).map fun x => (ofMembers x.1, x.2)
    | l => do
      let (n, r) ← Numeral.read l
      return (← n.value, r)

/-- Takes the items of an array and its closing bracket off, at least one item. -/
def readItems : (fuel depth : Nat) → List Char → Option (List Json × List Char)
  | 0, _, _ => none
  | fuel + 1, depth, l => do
    let (v, r) ← readValue fuel depth l
    match skipGap r with
    | ']' :: r => return ([v], r)
    | ',' :: r =>
      let (vs, r) ← readItems fuel depth r
      return (v :: vs, r)
    | _ => none

/-- Takes the members of an object and its closing brace off, at least one member. -/
def readMembers : (fuel depth : Nat) → List Char → Option (List (String × Json) × List Char)
  | 0, _, _ => none
  | fuel + 1, depth, l => do
    match skipGap l with
    | '"' :: r =>
      let (k, r) ← readString r
      match skipGap r with
      | ':' :: r =>
        let (v, r) ← readValue fuel depth r
        match skipGap r with
        | '\x7d' :: r => return ([(k, v)], r)
        | ',' :: r =>
          let (ms, r) ← readMembers fuel depth r
          return ((k, v) :: ms, r)
        | _ => none
      | _ => none
    | _ => none

end

/-- How deep values may be nested. -/
def maxDepth : Nat := 127

/-- The value that a list of characters stands for. -/
def parseChars? (l : List Char) : Option Json := do
  let (v, r) ← readValue (l.length + 1) maxDepth l
  if (skipGap r).isEmpty then some v else none

/-- **The value a text stands for**, if it stands for one. -/
def parse? (s : String) : Option Json := parseChars? s.toList

end Handoff.Json
