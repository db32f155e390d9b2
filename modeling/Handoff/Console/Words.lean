import Handoff.Text.Blank

/-! # The words of a command

Words are separated by white space. A part between double quotes belongs to one word, white space
included; inside it a backslash takes the next character with it.

* `splitWords`: the words of a text, unless a quoted part is left open.
-/

namespace Handoff.Console

/-- Where in a word a character stands: outside quotes, inside, or after a backslash inside. -/
inductive Place where
  | plain
  | quoted
  | escaped
deriving DecidableEq, Repr

/-- The place after a character that is part of a word. -/
def Place.next : Place → Char → Place
  | plain, c => if c = '"' then quoted else plain
  | quoted, c => if c = '\\' then escaped else if c = '"' then plain else quoted
  | escaped, _ => quoted

/-- The word whose characters were collected last first, if there are any. -/
def finished : List Char → List (List Char)
  | [] => []
  | w => [w.reverse]

/-- The words of a text, after the characters `word` of a word, last first. -/
def wordsFrom (p : Place) (word : List Char) : List Char → Option (List (List Char))
  | [] => if p = .plain then some (finished word) else none
  | c :: r =>
    if p = .plain ∧ Text.isBlank c then (wordsFrom .plain [] r).map (finished word ++ ·)
    else wordsFrom (p.next c) (c :: word) r

/-- **The words of a text**; nothing if a quoted part is left open. -/
def splitWords (l : List Char) : Option (List (List Char)) := wordsFrom .plain [] l

example : (splitWords "a  \"b \\\" c\"d".toList).map (·.map String.ofList) =
    some ["a", "\"b \\\" c\"d"] := by decide +kernel

end Handoff.Console
