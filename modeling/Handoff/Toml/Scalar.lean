import Handoff.Decimal.Shortest
import Handoff.Text.Digits
import Handoff.Text.Hex
import Handoff.Toml.Basic

/-! # Reading strings, numbers, dates and names

Every reader takes something off the front of a text and leaves the rest; it answers nothing if the
text does not begin that way.

* `readString`: the four kinds of strings.
* `readNumber`: dates and times, floats, and integers to four bases.
* `readKey`: a name, or several with points between them.
-/

namespace Handoff.Toml

/-! ### Gaps, comments and line ends -/

/-- The white space inside a line. -/
def isGap (c : Char) : Bool := c == ' ' || c == '\t'

/-- A text without the white space at its front. -/
def skipGap (l : List Char) : List Char := l.dropWhile isGap

/-- What follows a line end. -/
def newline? : List Char → Option (List Char)
  | '\n' :: r => some r
  | '\r' :: '\n' :: r => some r
  | _ => none

/-- The characters of comments: all but the controls, of which the tab is allowed. -/
def isCommentChar (c : Char) : Bool := c == '\t' || (0x20 ≤ c.toNat && c.toNat != 0x7F)

/-- A text without the comment at its front. -/
def skipComment : List Char → List Char
  | '#' :: r => r.dropWhile isCommentChar
  | l => l

/-- What follows the rest of a line that may hold a comment and nothing else. -/
def endLine? (l : List Char) : Option (List Char) :=
  match skipComment (skipGap l) with
  | [] => some []
  | l => newline? l

/-! ### Strings -/

/-- The characters that stand for themselves between double quotes. -/
def isBasicChar (c : Char) : Bool := isCommentChar c && c != '"' && c != '\\'

/-- The characters that stand for themselves between single quotes. -/
def isLiteralChar (c : Char) : Bool := isCommentChar c && c != '\''

/-- The character that a letter after a backslash stands for. -/
def escape? : Char → Option Char
  | 'b' => some '\x08'
  | 't' => some '\t'
  | 'n' => some '\n'
  | 'f' => some '\x0c'
  | 'r' => some '\r'
  | '"' => some '"'
  | '\\' => some '\\'
  | _ => none

/-- The character with the number that hexadecimal digits stand for. -/
def hexChar? (ds : List Char) : Option Char := (Text.hexValue? ds).bind Text.charOfCode?

/-- A read text with one more character in front. -/
def withChar (c : Option Char) (x : Option (List Char × List Char)) :
    Option (List Char × List Char) := do
  let c ← c
  let (cs, r) ← x
  return (c :: cs, r)

/-- The characters up to a closing double quote. -/
def readBasic : List Char → Option (List Char × List Char)
  | '"' :: r => some ([], r)
  | '\\' :: 'u' :: a :: b :: c :: d :: r => withChar (hexChar? [a, b, c, d]) (readBasic r)
  | '\\' :: 'U' :: a :: b :: c :: d :: e :: f :: g :: h :: r =>
    withChar (hexChar? [a, b, c, d, e, f, g, h]) (readBasic r)
  | '\\' :: c :: r => withChar (escape? c) (readBasic r)
  | c :: r => if isBasicChar c then withChar (some c) (readBasic r) else none
  | [] => none

/-- The characters up to a closing single quote. -/
def readLiteral (l : List Char) : Option (List Char × List Char) :=
  match l.dropWhile isLiteralChar with
  | '\'' :: r => some (l.takeWhile isLiteralChar, r)
  | _ => none

/-- Whether nothing but white space stands before the end of the line. -/
def endsLine (l : List Char) : Bool := (newline? (skipGap l)).isSome

/-- The characters up to three closing double quotes; one or two quotes more belong to the text. In
`skipping` mode, after a backslash at the end of a line, white space and line ends are left out. -/
def readBasicLines (skipping : Bool) : List Char → Option (List Char × List Char)
  | '"' :: '"' :: '"' :: '"' :: '"' :: r => some (['"', '"'], r)
  | '"' :: '"' :: '"' :: '"' :: r => some (['"'], r)
  | '"' :: '"' :: '"' :: r => some ([], r)
  | '"' :: r => withChar (some '"') (readBasicLines false r)
  | '\\' :: 'u' :: a :: b :: c :: d :: r =>
    withChar (hexChar? [a, b, c, d]) (readBasicLines false r)
  | '\\' :: 'U' :: a :: b :: c :: d :: e :: f :: g :: h :: r =>
    withChar (hexChar? [a, b, c, d, e, f, g, h]) (readBasicLines false r)
  | '\\' :: c :: r =>
    if endsLine (c :: r) then readBasicLines true (c :: r)
    else withChar (escape? c) (readBasicLines false r)
  | '\r' :: '\n' :: r =>
    if skipping then readBasicLines true r else withChar (some '\n') (readBasicLines false r)
  | c :: r =>
    if skipping && (isGap c || c == '\n') then readBasicLines true r
    else if c == '\n' || isBasicChar c then withChar (some c) (readBasicLines false r)
    else none
  | [] => none

/-- The characters up to three closing single quotes; one or two quotes more belong to the text. -/
def readLiteralLines : List Char → Option (List Char × List Char)
  | '\'' :: '\'' :: '\'' :: '\'' :: '\'' :: r => some (['\'', '\''], r)
  | '\'' :: '\'' :: '\'' :: '\'' :: r => some (['\''], r)
  | '\'' :: '\'' :: '\'' :: r => some ([], r)
  | '\'' :: r => withChar (some '\'') (readLiteralLines r)
  | '\r' :: '\n' :: r => withChar (some '\n') (readLiteralLines r)
  | c :: r => if c == '\n' || isLiteralChar c then withChar (some c) (readLiteralLines r) else none
  | [] => none

/-- A text without the line end at its front. -/
def skipNewline (l : List Char) : List Char := (newline? l).getD l

/-- A read text as a string. -/
def asString (x : Option (List Char × List Char)) : Option (String × List Char) :=
  x.map fun (cs, r) => (String.ofList cs, r)

/-- A string. A line end right after three opening quotes is left out. -/
def readString : List Char → Option (String × List Char)
  | '"' :: '"' :: '"' :: r => asString (readBasicLines false (skipNewline r))
  | '\'' :: '\'' :: '\'' :: r => asString (readLiteralLines (skipNewline r))
  | '"' :: r => asString (readBasic r)
  | '\'' :: r => asString (readLiteral r)
  | _ => none

/-! ### Numbers -/

/-- Further digits, with at most one underscore before each. -/
def moreDigits (isDigit : Char → Bool) : List Char → List Char × List Char
  | '_' :: c :: r =>
    if isDigit c then
      let (ds, r) := moreDigits isDigit r
      (c :: ds, r)
    else ([], '_' :: c :: r)
  | c :: r =>
    if isDigit c then
      let (ds, r) := moreDigits isDigit r
      (c :: ds, r)
    else ([], c :: r)
  | [] => ([], [])

/-- Digits, at least one. -/
def readDigits (isDigit : Char → Bool) : List Char → Option (List Char × List Char)
  | c :: r =>
    if isDigit c then
      let (ds, r) := moreDigits isDigit r
      some (c :: ds, r)
    else none
  | [] => none

/-- A whole part: a zero alone, or digits of which the first is no zero. -/
def readWhole : List Char → Option (List Char × List Char)
  | '0' :: r => some (['0'], r)
  | l => readDigits Char.isDigit l

/-- A sign, and whether it is a minus; without a sign the number is positive. -/
def readSign : List Char → Bool × List Char
  | '-' :: r => (true, r)
  | '+' :: r => (false, r)
  | l => (false, l)

/-- An integer that fits into 64 bits with a sign. -/
def integer? (n : Int) : Option Toml :=
  if -0x8000000000000000 ≤ n ∧ n < 0x8000000000000000 then some (integer n) else none

/-- An integer. A base other than ten is told by its first two characters, and has no sign. -/
def readInteger : List Char → Option (Toml × List Char)
  | '0' :: 'x' :: r => do
    let (ds, r) ← readDigits (fun c => (Text.hexDigit? c).isSome) r
    return (← integer? (← Text.hexValue? ds), r)
  | '0' :: 'o' :: r => do
    let (ds, r) ← readDigits (fun c => '0' ≤ c && c ≤ '7') r
    return (← integer? (Text.natOfDigits 8 ds), r)
  | '0' :: 'b' :: r => do
    let (ds, r) ← readDigits (fun c => c == '0' || c == '1') r
    return (← integer? (Text.natOfDigits 2 ds), r)
  | l => do
    let (negative, l) := readSign l
    let (ds, r) ← readWhole l
    let n := Text.natOfDigits 10 ds
    return (← integer? (if negative then -n else n), r)

/-- The mark, the sign and the digits of an exponent. -/
def readExponent : List Char → Option (Int × List Char)
  | c :: r =>
    if c = 'e' || c = 'E' then do
      let (negative, r) := readSign r
      let (ds, r) ← readDigits Char.isDigit r
      let n := Text.natOfDigits 10 ds
      return (if negative then -n else n, r)
    else none
  | [] => none

/-- The digits of a fraction and its exponent; one of the two may be missing. -/
def readFraction : List Char → Option ((List Char × Int) × List Char)
  | '.' :: r => do
    let (ds, r) ← readDigits Char.isDigit r
    match readExponent r with
    | some (e, r) => return ((ds, e), r)
    | none => return ((ds, 0), r)
  | l => do
    let (e, r) ← readExponent l
    return (([], e), r)

/-- The double nearest to a decimal number. Only numbers below zero may be too large. -/
def float? (negative : Bool) (d : Decimal) : Option Toml :=
  let x := d.toFloat
  if negative then some (float (-x)) else if x.isInf then none else some (float x)

/-- A float, also infinity and what is no number. -/
def readFloat (l : List Char) : Option (Toml × List Char) :=
  let (negative, l) := readSign l
  match l with
  | 'i' :: 'n' :: 'f' :: r => some (float (if negative then -(1 / 0) else 1 / 0), r)
  | 'n' :: 'a' :: 'n' :: r => some (float (0 / 0), r)
  | l => do
    let (whole, r) ← readWhole l
    let ((fraction, e), r) ← readFraction r
    let x ← float? negative ⟨Text.natOfDigits 10 (whole ++ fraction), e - fraction.length⟩
    return (x, r)

/-! ### Dates and times -/

/-- A number of two digits between two bounds. -/
def readPair (least greatest : Nat) : List Char → Option (Nat × List Char)
  | a :: b :: r =>
    if a.isDigit && b.isDigit then
      let n := Text.natOfDigits 10 [a, b]
      if least ≤ n ∧ n ≤ greatest then some (n, r) else none
    else none
  | _ => none

/-- What follows a given character. -/
def after (c : Char) : List Char → Option (List Char)
  | d :: r => if c = d then some r else none
  | [] => none

/-- The number of days of a month. -/
def daysIn (year month : Nat) : Nat :=
  if month = 2 then
    if year % 4 = 0 ∧ (year % 100 ≠ 0 ∨ year % 400 = 0) then 29 else 28
  else if month = 4 ∨ month = 6 ∨ month = 9 ∨ month = 11 then 30
  else 31

/-- What follows a date, `year-month-day`. -/
def skipDate (l : List Char) : Option (List Char) := do
  let (century, l) ← readPair 0 99 l
  let (year, l) ← readPair 0 99 l
  let l ← after '-' l
  let (month, l) ← readPair 1 12 l
  let l ← after '-' l
  let (_, l) ← readPair 1 (daysIn (100 * century + year) month) l
  return l

/-- What follows a time, `hour:minute:second`, perhaps with a fraction. -/
def skipTime (l : List Char) : Option (List Char) := do
  let (_, l) ← readPair 0 23 l
  let l ← after ':' l
  let (_, l) ← readPair 0 59 l
  let l ← after ':' l
  let (_, l) ← readPair 0 60 l
  match l with
  | '.' :: c :: r => return if c.isDigit then r.dropWhile Char.isDigit else l
  | l => return l

/-- What follows an offset from universal time, if there is one. -/
def skipOffset : List Char → List Char
  | 'Z' :: r => r
  | 'z' :: r => r
  | l =>
    match l with
    | c :: r =>
      if c = '+' || c = '-' then
        (do
          let (_, r) ← readPair 0 23 r
          let r ← after ':' r
          let (_, r) ← readPair 0 59 r
          return r).getD l
      else l
    | [] => []

/-- What follows the time after a date, if there is one. -/
def skipTimeOfDay : List Char → List Char
  | c :: r =>
    if c = 'T' || c = 't' || c = ' ' then ((skipTime r).map skipOffset).getD (c :: r) else c :: r
  | [] => []

/-- A date, a time, or both. -/
def readMoment (l : List Char) : Option (Toml × List Char) :=
  let rest := match skipDate l with
    | some r => some (skipTimeOfDay r)
    | none => skipTime l
  rest.map fun r => (moment (String.ofList (l.take (l.length - r.length))), r)

/-- A date or time, a float or an integer: the first of the three that the text begins with. -/
def readNumber (l : List Char) : Option (Toml × List Char) :=
  readMoment l <|> readFloat l <|> readInteger l

/-! ### Names -/

/-- The characters of names without quotes. -/
def isBareChar (c : Char) : Bool := c.isAlphanum || c == '_' || c == '-'

/-- A single name, with quotes or without. -/
def readName : List Char → Option (String × List Char)
  | '"' :: r => asString (readBasic r)
  | '\'' :: r => asString (readLiteral r)
  | l =>
    match l.takeWhile isBareChar with
    | [] => none
    | ds => some (String.ofList ds, l.dropWhile isBareChar)

/-- Names with points between them, of at most `fuel` parts. -/
def readNames : (fuel : Nat) → List Char → Option (List String × List Char)
  | 0, _ => none
  | fuel + 1, l => do
    let (name, r) ← readName (skipGap l)
    match skipGap r with
    | '.' :: r =>
      let (names, r) ← readNames fuel r
      return (name :: names, r)
    | r => return ([name], r)

/-- How many parts a name has at most, and how deep arrays and tables are nested at most. -/
def maxDepth : Nat := 79

/-- **A name**, or several with points between them. -/
def readKey (l : List Char) : Option (List String × List Char) := readNames maxDepth l

end Handoff.Toml
