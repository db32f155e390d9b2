import Handoff.Text.Hidden

/-! # Text between quotes

Where a message shows a text it stands between double quotes, with everything escaped that could be
mistaken: the quote and the backslash, line ends and tabs, and hidden characters by their number.
-/

namespace Handoff.Text

/-- A character between quotes. -/
def quotedChar (c : Char) : List Char :=
  if c = '\t' then ['\\', 't']
  else if c = '\n' then ['\\', 'n']
  else if c = '\r' then ['\\', 'r']
  else if c = '\x00' then ['\\', '0']
  else if c = '"' then ['\\', '"']
  else if c = '\\' then ['\\', '\\']
  else if isHidden c then ['\\', 'u', '\x7b'] ++ Nat.toDigits 16 c.toNat ++ ['\x7d']
  else [c]

/-- **A text between quotes.** -/
def quoted (s : String) : String :=
  String.ofList ('"' :: (s.toList.flatMap quotedChar ++ ['"']))

end Handoff.Text
