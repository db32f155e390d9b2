import Handoff.Config.Basic
import Handoff.Console.Session
import Handoff.Demo.Output

/-! # The management console of a configuration

One record is registered under the configured name, and a session is held over the input.
-/

namespace Handoff.Demo

/-- The name and the registry with which the console of a configuration starts. -/
def startConsole (c : ManagedConfig) : Except Failure (ObjectName × Registry) := do
  let name ← ObjectName.parse c.objectName
  let (answer, g) := Registry.empty.register name ⟨c.label, c.counter⟩
  answer
  return (name, g)

/-- **The console over an input.** It fails if a line that it comes to is no text. -/
def consoleOutput (c : ManagedConfig) (input : ByteArray) : Output :=
  match startConsole c with
  | .error _ => .failure ""
  | .ok (name, g) =>
    let (text, ended) := Console.Session.run g (Console.Session.lines input)
    let text := Console.Session.banner name ++ text
    if ended then .success text else .failure text

end Handoff.Demo
