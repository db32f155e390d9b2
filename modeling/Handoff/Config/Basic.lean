import Handoff.Managed.ObjectName

/-! # Configurations

One configuration serves all demonstrations. Each has a section of its own, and every field has a
default.

* `Config.validate`: the rules that go beyond the types of the fields, in the order in which they
  are checked.
-/

namespace Handoff

/-- The section on logging. -/
structure LogConfig where
  level : String := "info"
deriving DecidableEq, Repr

/-- The section on deferred values. -/
structure DeferredConfig where
  head : String := "Hello "
  tail : String := "master thesis."
  /-- How long it takes until each half of the greeting is there. -/
  delayMs : Nat := 50
deriving DecidableEq, Repr

/-- The section on worker pools. -/
structure PoolConfig where
  /-- The number of outer workers; by default as many as the machine has processors, at least
  two. -/
  outerWorkers : Option Nat := none
  innerWorkers : Nat := 1
  /-- How long a job is waited for; without it for ever. -/
  joinTimeoutMs : Option Nat := some 5000
deriving DecidableEq, Repr

/-- The section on push streams. -/
structure StreamConfig where
  count : Nat := 10
  capacity : Nat := 16
deriving DecidableEq, Repr

/-- The section on managed objects. -/
structure ManagedConfig where
  objectName : String := "primers:type=Greeter"
  label : String := "hello"
  counter : Int64 := 0
deriving DecidableEq, Repr

/-- A configuration. -/
structure Config where
  log : LogConfig := {}
  deferred : DeferredConfig := {}
  pool : PoolConfig := {}
  stream : StreamConfig := {}
  managed : ManagedConfig := {}
deriving DecidableEq, Repr

namespace Config

/-- The configuration with all defaults. -/
def default : Config := {}

/-- The first rule that a configuration breaks. -/
def fault? (c : Config) : Option ConfigFault :=
  if c.pool.outerWorkers = some 0 then some (.invalid "pool.outer_workers" "must be at least 1")
  else if c.pool.innerWorkers = 0 then some (.invalid "pool.inner_workers" "must be at least 1")
  else if c.stream.capacity = 0 then some (.invalid "stream.capacity" "must be at least 1")
  else match ObjectName.parse c.managed.objectName with
    | .error e => some (.invalid "managed.object_name" e.text)
    | .ok _ => none

/-- **Checks the rules** that go beyond the types of the fields. -/
def validate (c : Config) : Except ConfigFault Unit :=
  match c.fault? with
  | some e => .error e
  | none => .ok ()

end Config

end Handoff
