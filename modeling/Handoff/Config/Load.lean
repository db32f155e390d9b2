import Handoff.Config.Document

/-! # Where a configuration comes from

A file that was named wins over one that the environment names; without either the defaults hold.
-/

namespace Handoff.Config

/-- The variable of the environment that may name a file. -/
def environmentName : String := "PRIMERS_CONFIG"

/-- What reading a file gave. -/
inductive FileText where
  | missing
  | directory
  | bytes (content : ByteArray)

/-- A path, and what reading it gave. -/
structure Source where
  path : String
  file : FileText

/-- The text of a file. -/
def Source.text (s : Source) : Except ConfigFault String :=
  match s.file with
  | .missing => .error (.read s.path "No such file or directory (os error 2)")
  | .directory => .error (.read s.path "Is a directory (os error 21)")
  | .bytes content =>
    match String.fromUTF8? content with
    | some t => .ok t
    | none => .error (.read s.path "stream did not contain valid UTF-8")

/-- The configuration in a file. -/
def ofSource (s : Source) : Except ConfigFault Config := s.text.bind ofText

/-- **The configuration that holds**: of the file that was named, else of the file that the
environment names, else the default. -/
def load (named environment : Option Source) : Except ConfigFault Config :=
  match named <|> environment with
  | some s => ofSource s
  | none => (default.validate).map fun _ => default

end Handoff.Config
