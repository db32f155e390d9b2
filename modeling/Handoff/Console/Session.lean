import Handoff.Console.Command

/-! # Console sessions

A session prints a prompt, reads a line, prints the answer, and so on until the input ends or a line
says `quit` or `exit`.

* `Session.reply`: what is printed for a line, and the registry afterwards.
* `Session.run`: everything printed after the banner, and whether the session came to its end. It
  does not if a line is no text.
* `Session.lines`: the lines of an input, each with its line end.
-/

namespace Handoff.Console.Session

variable {α : Type} [Managed α]

/-- What stands before every line. -/
def prompt : String := "> "

/-- Whether a line ends the session. -/
def quits (line : String) : Bool :=
  let l := Text.trim line.toList
  l == "quit".toList || l == "exit".toList

/-- What is printed for an answer: nothing for an empty one. -/
def printed : Except Failure String → String
  | .ok "" => ""
  | .ok s => s ++ "\n"
  | .error e => "error: " ++ e.text ++ "\n"

/-- What is printed for a line, and the registry afterwards; nothing if the line ends the
session. -/
def reply (g : Registry α) (line : String) : Option (String × Registry α) :=
  if quits line then none
  else
    let (answer, g) := execute g line
    some (printed answer, g)

/-- What is printed at the end. -/
def closing (g : Registry α) : String := toString g.size ++ " object(s) still registered\n"

/-- **A session over lines**, of which `none` is no text: what is printed, and whether the session
came to its end. -/
def run (g : Registry α) : List (Option String) → String × Bool
  | [] => (prompt ++ closing g, true)
  | none :: _ => (prompt, false)
  | some line :: lines =>
    match reply g line with
    | none => (prompt ++ closing g, true)
    | some (out, g) =>
      let (rest, ended) := run g lines
      (prompt ++ out ++ rest, ended)

/-- The lines of an input, each with its line end; the last one may lack it. -/
def splitLines : List UInt8 → List (List UInt8)
  | [] => []
  | b :: r =>
    if b = 10 then [b] :: splitLines r
    else match splitLines r with
      | [] => [[b]]
      | l :: ls => (b :: l) :: ls

/-- The lines of an input as texts. -/
def lines (input : ByteArray) : List (Option String) :=
  (splitLines input.data.toList).map fun l => String.fromUTF8? ⟨l.toArray⟩

/-- The text before the first prompt. -/
def banner (name : ObjectName) : String :=
  "=== Management Console ===\nregistered " ++ name.text ++ "\n\n" ++ help ++ "\n\n"

end Handoff.Console.Session
