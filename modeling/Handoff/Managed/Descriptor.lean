import Handoff.Failure
import Handoff.Json.Basic

/-! # Managed objects and their descriptors

A managed object tells what can be done with it: its attributes, and its operations with their
parameters and results. The descriptor of an object is data; that it tells the truth is a statement
about the object.

* `Descriptor`: what an object tells of itself.
* `Managed`: what is asked of an object.
-/

namespace Handoff

/-- The types of attributes, parameters and results. -/
inductive ValueType where
  | string
  /-- A whole number that fits into 64 bits with a sign. -/
  | integer
  /-- A whole number that fits into 32 bits without a sign. -/
  | count
  | null
deriving DecidableEq, Repr

namespace ValueType

/-- The name of a type. -/
def text : ValueType → String
  | string => "string"
  | integer => "integer"
  | count => "integer >= 0"
  | null => "null"

/-- Whether a value is of a type. -/
def Holds : ValueType → Json → Prop
  | string, .str _ => True
  | integer, .int n => -0x8000000000000000 ≤ n ∧ n < 0x8000000000000000
  | count, .int n => 0 ≤ n ∧ n < 0x100000000
  | null, .null => True
  | _, _ => False

end ValueType

/-- An attribute that can be read, and perhaps set. -/
structure AttributeInfo where
  name : String
  type : ValueType
  writable : Bool
deriving DecidableEq, Repr

/-- A parameter of an operation. -/
structure Parameter where
  name : String
  type : ValueType
deriving DecidableEq, Repr

/-- An operation with its parameters and the type of its result. -/
structure OperationInfo where
  name : String
  params : List Parameter
  returns : ValueType
deriving DecidableEq, Repr

/-- What can be done with an object. -/
structure Descriptor where
  description : String
  attributes : List AttributeInfo
  operations : List OperationInfo
deriving DecidableEq, Repr

/-- A parameter as text. -/
def Parameter.text (p : Parameter) : String := p.name ++ ": " ++ p.type.text

/-- An attribute as a value, its fields in a fixed order. -/
def AttributeInfo.toJson (a : AttributeInfo) : Json :=
  .ofFields [("name", .str a.name), ("type", .str a.type.text), ("writable", .bool a.writable)]

/-- An operation as a value, its fields in a fixed order. -/
def OperationInfo.toJson (o : OperationInfo) : Json :=
  .ofFields [("name", .str o.name), ("params", .arr (o.params.map fun p => .str p.text)),
    ("returns", .str o.returns.text)]

/-- A descriptor as a value, its fields in a fixed order. -/
def Descriptor.toJson (d : Descriptor) : Json :=
  .ofFields [("description", .str d.description),
    ("attributes", .arr (d.attributes.map AttributeInfo.toJson)),
    ("operations", .arr (d.operations.map OperationInfo.toJson))]

/-- **A managed object**: it is described, and used by the names of its attributes and operations. A use
answers its result or a failure, and the object afterwards. -/
class Managed (α : Type) where
  describe : α → Descriptor
  getAttribute? : α → String → Option Json
  setAttribute : α → String → Json → Except Failure Unit × α
  invoke : α → String → List Json → Except Failure Json × α

end Handoff
