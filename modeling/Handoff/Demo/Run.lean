import Handoff.Demo.Console
import Handoff.Demo.Deferred
import Handoff.Demo.Pool
import Handoff.Demo.Stream

/-! # The demonstrations by name -/

namespace Handoff

/-- The demonstrations. -/
inductive Demo where
  | deferred
  | stream
  | pool
  | console
deriving DecidableEq, Repr

namespace Demo

/-- The demonstration that has a name. -/
def ofName? : String → Option Demo
  | "deferred_demo" => some deferred
  | "stream_demo" => some stream
  | "pool_demo" => some pool
  | "managed_console" => some console
  | _ => none

/-- **What a demonstration leaves behind**, given its configuration, the number of processors and
its input. Without a configuration it fails before it writes anything. -/
def run (d : Demo) (c : Except ConfigFault Config) (processors : Nat) (input : ByteArray) :
    Output :=
  match c with
  | .error _ => .failure ""
  | .ok c =>
    match d with
    | deferred => deferredOutput c.deferred
    | stream => streamOutput c.stream
    | pool => poolOutput c.pool processors
    | console => consoleOutput c.managed input

end Demo

end Handoff
