import Std.Data.ExtTreeMap
import Handoff.Managed.ObjectName
import Handoff.Managed.Record

/-! # Registries

A registry is a finite map from object names to managed objects of one type, which are records where
nothing else is said. Objects are taken in and out, and used by name while they are in. A failure
about the object carries its canonical name: in place of the one that an object gives itself, the
registry's own is put where an attribute is set that there is not, or an operation is called.
-/

namespace Handoff

/-- A finite map from names to objects. -/
structure Registry (α : Type := Record) where
  objects : Std.ExtTreeMap ObjectName α

namespace Registry

variable {α : Type}

/-- The registry without objects. -/
def empty (α : Type := Record) : Registry α := ⟨∅⟩

instance : Inhabited (Registry α) := ⟨empty α⟩

/-- The object under a name. -/
def find? (g : Registry α) (name : ObjectName) : Option α := g.objects[name]?

/-- The names in their order. -/
def names (g : Registry α) : List ObjectName := g.objects.keys

/-- The number of objects. -/
def size (g : Registry α) : Nat := g.objects.size

/-- Whether there are no objects. -/
def isEmpty (g : Registry α) : Bool := g.objects.isEmpty

/-- The registry with another object under a name. -/
def put (g : Registry α) (name : ObjectName) (r : α) : Registry α := ⟨g.objects.insert name r⟩

/-- The failure about a name that is not taken. -/
def unknown (name : ObjectName) : Failure := .unknownObject name.text

/-- Takes an object in, unless its name is taken. -/
def register (g : Registry α) (name : ObjectName) (r : α) : Except Failure Unit × Registry α :=
  match g.find? name with
  | some _ => (.error (.alreadyRegistered name.text), g)
  | none => (.ok (), g.put name r)

/-- Takes an object out. -/
def unregister (g : Registry α) (name : ObjectName) : Except Failure α × Registry α :=
  match g.find? name with
  | some r => (.ok r, ⟨g.objects.erase name⟩)
  | none => (.error (unknown name), g)

/-- A failure to set an attribute, with the object's name if there is no such attribute. -/
def attributeFailure (name : ObjectName) : Failure → Failure
  | .unknownAttribute _ attr => .unknownAttribute name.text attr
  | e => e

/-- A failure of a call, with the object's name if there is no such operation. -/
def operationFailure (name : ObjectName) : Failure → Failure
  | .unknownOperation _ operation => .unknownOperation name.text operation
  | e => e

variable [Managed α]

/-- What can be done with an object. -/
def describe (g : Registry α) (name : ObjectName) : Except Failure Descriptor :=
  match g.find? name with
  | some r => .ok (Managed.describe r)
  | none => .error (unknown name)

/-- The value of an object's attribute. -/
def getAttribute (g : Registry α) (name : ObjectName) (attr : String) : Except Failure Json :=
  match g.find? name with
  | none => .error (unknown name)
  | some r =>
    match Managed.getAttribute? r attr with
    | some v => .ok v
    | none => .error (.unknownAttribute name.text attr)

/-- Sets an object's attribute. -/
def setAttribute (g : Registry α) (name : ObjectName) (attr : String) (value : Json) :
    Except Failure Unit × Registry α :=
  match g.find? name with
  | none => (.error (unknown name), g)
  | some r =>
    let (answer, r) := Managed.setAttribute r attr value
    (answer.mapError (attributeFailure name), g.put name r)

/-- **Calls an operation of an object.** -/
def invoke (g : Registry α) (name : ObjectName) (operation : String) (args : List Json) :
    Except Failure Json × Registry α :=
  match g.find? name with
  | none => (.error (unknown name), g)
  | some r =>
    let (answer, r) := Managed.invoke r operation args
    (answer.mapError (operationFailure name), g.put name r)

end Registry

end Handoff
