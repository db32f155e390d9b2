import Handoff.Text.Cut

/-! # White space

White space is the Unicode property of that name, in every place where words are told apart.

* `isBlank`: the property.
* `trim`: text without the white space at its ends.
-/

namespace Handoff.Text

/-- The Unicode property `White_Space`. -/
def isBlank (c : Char) : Bool :=
  let n := c.toNat
  (0x09 ≤ n && n ≤ 0x0D) || n == 0x20 || n == 0x85 || n == 0xA0 || n == 0x1680 ||
    (0x2000 ≤ n && n ≤ 0x200A) || n == 0x2028 || n == 0x2029 || n == 0x202F || n == 0x205F ||
    n == 0x3000

/-- Text without the white space before its first visible character. -/
def trimStart (l : List Char) : List Char := l.dropWhile isBlank

/-- Text without the white space after its last visible character. -/
def trimEnd (l : List Char) : List Char := (l.reverse.dropWhile isBlank).reverse

/-- Text without the white space at either end. -/
def trim (l : List Char) : List Char := trimEnd (trimStart l)

/-- The first word and what follows the single blank after it. -/
def cutWord (l : List Char) : Option (List Char × List Char) := cutAt isBlank l

example : isBlank '\u2003' = true ∧ isBlank '\u200b' = false ∧ isBlank '\x1c' = false := by decide

end Handoff.Text
