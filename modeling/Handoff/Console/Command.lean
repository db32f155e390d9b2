import Handoff.Console.Words
import Handoff.Json.Reader
import Handoff.Managed.Registry

/-! # Console commands

A console reads lines and answers texts. Each line is a command and its words; it acts on a
registry, whatever the objects in it.

* `Console.execute`: the answer to a line, and the registry afterwards.
* `parseValue`: a word is the value it stands for, or else itself as a string.
-/

namespace Handoff.Console

variable {α : Type} [Managed α]

/-- The answer to `help`. -/
def help : String :=
  "commands:
  help                              show this text
  list                              registered object names
  describe <name>                   attributes and operations as JSON
  get <name> <attribute>            read an attribute
  set <name> <attribute> <value>    write an attribute
  invoke <name> <operation> [args]  call an operation

values are JSON when they parse as JSON; quote strings that contain spaces"

/-- The value that a word stands for; a word that stands for none is a string. -/
def parseValue (l : List Char) : Json := (Json.parseChars? l).getD (.str (String.ofList l))

/-- A value as an answer: strings as they are. -/
def render : Json → String
  | .str s => s
  | v => v.compact

/-- The failure of a command with too few words. -/
def usage (command expected : String) : Failure := .invalidArgument command ("usage: " ++ expected)

/-- The first word and the text after it, both without white space around them. -/
def twoParts (command : String) (l : List Char) : Except Failure (List Char × List Char) :=
  match Text.cutWord l with
  | none => .error (usage command "<name> <attribute>")
  | some (a, b) =>
    match Text.trim b with
    | [] => .error (usage command "<name> <attribute>")
    | b => .ok (a, b)

/-- `describe <name>`. -/
def describe (g : Registry α) (rest : List Char) : Except Failure String := do
  let name ← ObjectName.parse (String.ofList rest)
  let d ← g.describe name
  return d.toJson.pretty

/-- `get <name> <attribute>`. -/
def get (g : Registry α) (rest : List Char) : Except Failure String := do
  let (name, attr) ← twoParts "get" rest
  let name ← ObjectName.parse (String.ofList name)
  return render (← g.getAttribute name (String.ofList attr))

/-- The name, the attribute and the value of `set <name> <attribute> <value>`. -/
def setWords (rest : List Char) : Except Failure (ObjectName × String × Json) := do
  let (name, rest) ← twoParts "set" rest
  match Text.cutWord rest with
  | none => throw (usage "set" "set <name> <attribute> <value>")
  | some (attr, raw) =>
    let name ← ObjectName.parse (String.ofList name)
    return (name, String.ofList attr, parseValue (Text.trim raw))

/-- `set <name> <attribute> <value>`. -/
def set (g : Registry α) (rest : List Char) : Except Failure String × Registry α :=
  match setWords rest with
  | .error e => (.error e, g)
  | .ok (name, attr, value) =>
    let (answer, g) := g.setAttribute name attr value
    (answer.map fun _ => "ok", g)

/-- The name, the operation and the arguments of `invoke <name> <operation> [args]`. -/
def invokeWords (rest : List Char) : Except Failure (ObjectName × String × List Json) :=
  match splitWords rest with
  | none => .error (.invalidArgument "invoke" "unterminated quoted string")
  | some (name :: operation :: args) => do
    let name ← ObjectName.parse (String.ofList name)
    return (name, String.ofList operation, args.map parseValue)
  | some _ => .error (usage "invoke" "invoke <name> <operation> [args]")

/-- `invoke <name> <operation> [args]`. -/
def invoke (g : Registry α) (rest : List Char) : Except Failure String × Registry α :=
  match invokeWords rest with
  | .error e => (.error e, g)
  | .ok (name, operation, args) =>
    let (answer, g) := g.invoke name operation args
    (answer.map render, g)

/-- The command of a line and the text after it. -/
def splitCommand (line : List Char) : List Char × List Char :=
  let line := Text.trim line
  match Text.cutWord line with
  | none => (line, [])
  | some (command, rest) => (command, Text.trim rest)

/-- **The answer to a line**, and the registry afterwards. A blank line has an empty answer. -/
def execute (g : Registry α) (line : String) : Except Failure String × Registry α :=
  let (command, rest) := splitCommand line.toList
  match String.ofList command with
  | "" => (.ok "", g)
  | "help" => (.ok help, g)
  | "list" => (.ok ("\n".intercalate (g.names.map ObjectName.text)), g)
  | "describe" => (describe g rest, g)
  | "get" => (get g rest, g)
  | "set" => set g rest
  | "invoke" => invoke g rest
  | other => (.error (.unknownCommand other), g)

end Handoff.Console
