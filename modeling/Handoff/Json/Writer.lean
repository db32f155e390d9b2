import Handoff.Decimal.Notation
import Handoff.Json.Basic
import Handoff.Text.Hex

/-! # Writing structured values

* `Json.compact`: without any white space.
* `Json.pretty`: one item or member a line, indented by two blanks.
* `quoteChars`: a string. Only the quote, the backslash and control characters are escaped.
-/

namespace Handoff.Json

/-- A character as it stands in a string. -/
def escapeChar (c : Char) : List Char :=
  if c = '"' then ['\\', '"']
  else if c = '\\' then ['\\', '\\']
  else if c = '\x08' then ['\\', 'b']
  else if c = '\t' then ['\\', 't']
  else if c = '\n' then ['\\', 'n']
  else if c = '\x0c' then ['\\', 'f']
  else if c = '\r' then ['\\', 'r']
  else if c.toNat < 0x20 then ['\\', 'u', '0', '0', Text.hexDigit (c.toNat / 16),
      Text.hexDigit (c.toNat % 16)]
  else [c]

/-- A string between its quotes. -/
def quoteChars (l : List Char) : List Char := '"' :: (l.flatMap escapeChar ++ ['"'])

/-- A string between its quotes. -/
def quote (s : String) : List Char := quoteChars s.toList

/-- The text of a value that has no parts. -/
def atomChars : Json → List Char
  | null => "null".toList
  | bool true => "true".toList
  | bool false => "false".toList
  | int n => (toString n).toList
  | float x => (FloatNotation.document.text x).toList
  | str s => quote s
  | arr _ => []
  | obj _ => []

mutual

/-- The characters of a value without white space. -/
def compactChars : Json → List Char
  | arr [] => ['[', ']']
  | arr (v :: vs) => '[' :: (compactChars v ++ compactItems vs)
  | obj [] => ['\x7b', '\x7d']
  | obj (m :: ms) => '\x7b' :: (compactMember m ++ compactMembers ms)
  | v => atomChars v

/-- The items after the first, and the closing bracket. -/
def compactItems : List Json → List Char
  | [] => [']']
  | v :: vs => ',' :: (compactChars v ++ compactItems vs)

/-- A member of an object. -/
def compactMember : String × Json → List Char
  | (k, v) => quote k ++ ':' :: compactChars v

/-- The members after the first, and the closing brace. -/
def compactMembers : List (String × Json) → List Char
  | [] => ['\x7d']
  | m :: ms => ',' :: (compactMember m ++ compactMembers ms)

end

/-- **The text of a value** without white space. -/
def compact (v : Json) : String := String.ofList (compactChars v)

/-- The end of a line and the indentation of the next. -/
def newline (indent : Nat) : List Char := '\n' :: List.replicate (2 * indent) ' '

mutual

/-- The characters of a value with an item or member a line. -/
def prettyChars (indent : Nat) : Json → List Char
  | arr [] => ['[', ']']
  | arr (v :: vs) =>
    '[' :: (newline (indent + 1) ++ prettyChars (indent + 1) v ++ prettyItems indent vs)
  | obj [] => ['\x7b', '\x7d']
  | obj (m :: ms) =>
    '\x7b' :: (newline (indent + 1) ++ prettyMember (indent + 1) m ++ prettyMembers indent ms)
  | v => atomChars v

/-- The items after the first, and the closing bracket. -/
def prettyItems (indent : Nat) : List Json → List Char
  | [] => newline indent ++ [']']
  | v :: vs => ',' :: (newline (indent + 1) ++ prettyChars (indent + 1) v ++ prettyItems indent vs)

/-- A member of an object. -/
def prettyMember (indent : Nat) : String × Json → List Char
  | (k, v) => quote k ++ ':' :: ' ' :: prettyChars indent v

/-- The members after the first, and the closing brace. -/
def prettyMembers (indent : Nat) : List (String × Json) → List Char
  | [] => newline indent ++ ['\x7d']
  | m :: ms =>
    ',' :: (newline (indent + 1) ++ prettyMember (indent + 1) m ++ prettyMembers indent ms)

end

/-- The text of a value with an item or member a line. -/
def pretty (v : Json) : String := String.ofList (prettyChars 0 v)

end Handoff.Json
