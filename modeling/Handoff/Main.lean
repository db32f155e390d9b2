import Handoff.Config.Load
import Handoff.Demo.Run

/-! # The command line

The first argument names the demonstration, and the second one, if there is one, a configuration
file. -/

namespace Handoff.CommandLine

/-- Reads a file. -/
def readSource (path : String) : IO Config.Source := do
  try
    return ⟨path, .bytes (← IO.FS.readBinFile path)⟩
  catch
    | .noFileOrDirectory .. => return ⟨path, .missing⟩
    | _ => return ⟨path, .directory⟩

/-- The configuration of the arguments and the environment. -/
def configuration (path : Option String) : IO (Except ConfigFault Config) := do
  let named ← path.mapM readSource
  let environment ← (← IO.getEnv Config.environmentName).mapM readSource
  return Config.load named environment

/-- The number of processors. -/
def processors : IO Nat := do
  try
    return (← IO.FS.lines "/proc/cpuinfo").toList.countP (·.startsWith "processor")
  catch _ => return 1

/-- Holds a session over the lines of the input, one after another. -/
partial def converse (g : Registry) : IO UInt32 := do
  IO.print Console.Session.prompt
  (← IO.getStdout).flush
  let line ← (← IO.getStdin).getLine
  match if line.isEmpty then none else Console.Session.reply g line with
  | some (text, g) =>
    IO.print text
    converse g
  | none =>
    IO.print (Console.Session.closing g)
    return 0

/-- The console over the standard input. -/
def runConsole (c : ManagedConfig) : IO UInt32 := do
  match Demo.startConsole c with
  | .error e =>
    IO.eprintln e.text
    return 1
  | .ok (name, g) =>
    IO.print (Console.Session.banner name)
    converse g

/-- A demonstration that needs no input. -/
def runDemo (d : Demo) (c : Except ConfigFault Config) : IO UInt32 := do
  let output := d.run c (← processors) ByteArray.empty
  IO.print output.text
  return UInt32.ofNat output.status

end Handoff.CommandLine

open Handoff in
/-- The command line. -/
def main (args : List String) : IO UInt32 := do
  match args.head? >>= Demo.ofName? with
  | none =>
    IO.eprintln "usage: (deferred_demo | stream_demo | pool_demo | managed_console) [config]"
    return 2
  | some d =>
    let c ← CommandLine.configuration args[1]?
    match d, c with
    | _, .error e =>
      IO.eprintln e.text
      return 1
    | .console, .ok config => CommandLine.runConsole config.managed
    | _, _ => CommandLine.runDemo d c
