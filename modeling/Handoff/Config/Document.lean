import Handoff.Config.Basic
import Handoff.Decimal.Notation
import Handoff.Text.Quoted
import Handoff.Toml.Reader

/-! # Configurations from documents

A section is a table with some of its fields, or an array of its first fields. The entries are
looked at in the order of the document, and the first that does not fit is reported.

* `Config.ofEntries`: the configuration that a document describes.
* `Config.ofText`: the configuration in a text, if it keeps the rules.
-/

namespace Handoff

/-- What stands where something else was expected. -/
def Toml.described : Toml → String
  | string s => "string " ++ Text.quoted s
  | integer n => "integer `" ++ toString n ++ "`"
  | float x => "floating point `" ++ FloatNotation.plain.text x ++ "`"
  | boolean b => "boolean `" ++ toString b ++ "`"
  | moment _ => "map"
  | array _ => "sequence"
  | table _ => "map"

namespace Config

/-- The message about a value of another type. -/
def wrongType (v : Toml) (expected : String) : String :=
  "invalid type: " ++ v.described ++ ", expected " ++ expected

/-- The message about an integer out of range. -/
def wrongValue (n : Int) (expected : String) : String :=
  "invalid value: integer `" ++ toString n ++ "`, expected " ++ expected

/-- The names of fields as alternatives. -/
def alternatives : List String → String
  | [a] => "`" ++ a ++ "`"
  | [a, b] => "`" ++ a ++ "` or `" ++ b ++ "`"
  | names => "one of " ++ ", ".intercalate (names.map fun a => "`" ++ a ++ "`")

/-- The message about a name that is no field. -/
def unknownField (name : String) (fields : List String) : String :=
  "unknown field `" ++ name ++ "`, expected " ++ alternatives fields

/-! ### Fields -/

/-- The value of a text field. -/
def text (v : Toml) : Except String String :=
  match v with
  | .string s => .ok s
  | v => .error (wrongType v "a string")

/-- The value of a number field without sign, for numbers below `bound`. -/
def word (bound : Nat) (expected : String) (v : Toml) : Except String Nat :=
  match v with
  | .integer n => if 0 ≤ n ∧ n < bound then .ok n.toNat else .error (wrongValue n expected)
  | v => .error (wrongType v expected)

/-- The value of a 64-bit field with a sign. -/
def signed (v : Toml) : Except String Int64 :=
  match v with
  | .integer n => .ok (Int64.ofInt n)
  | v => .error (wrongType v "i64")

/-! ### Sections -/

/-- The shape of a section: its name in messages, its fields in their order, and what it means to
give one of them a value. -/
structure Shape (σ : Type) where
  title : String
  fields : List String
  set : σ → String → Toml → Except String σ

/-- Sets fields one after the other. -/
def Shape.setAll {σ : Type} (s : Shape σ) (start : σ) (entries : List (String × Toml)) :
    Except String σ :=
  entries.foldlM (fun c e => s.set c e.1 e.2) start

/-- The name of the one entry that a date or time counts as. -/
def momentField : String := "$__toml_private_datetime"

/-- The section that a value describes, the other fields being as in `start`. -/
def Shape.read {σ : Type} (s : Shape σ) (start : σ) (v : Toml) : Except String σ :=
  match v with
  | .table entries => s.setAll start entries
  | .array items => s.setAll start (s.fields.zip items)
  | .moment _ => .error (unknownField momentField s.fields)
  | v => .error (wrongType v ("struct " ++ s.title))

/-- The section on logging. -/
def logShape : Shape LogConfig where
  title := "LogConfig"
  fields := ["level"]
  set c name v :=
    match name with
    | "level" => (text v).map fun x => { c with level := x }
    | _ => .error (unknownField name ["level"])

/-- The section on deferred values. -/
def deferredShape : Shape DeferredConfig where
  title := "DeferredConfig"
  fields := ["head", "tail", "delay_ms"]
  set c name v :=
    match name with
    | "head" => (text v).map fun x => { c with head := x }
    | "tail" => (text v).map fun x => { c with tail := x }
    | "delay_ms" => (word 0x10000000000000000 "u64" v).map fun x => { c with delayMs := x }
    | _ => .error (unknownField name ["head", "tail", "delay_ms"])

/-- The section on worker pools. -/
def poolShape : Shape PoolConfig where
  title := "PoolConfig"
  fields := ["outer_workers", "inner_workers", "join_timeout_ms"]
  set c name v :=
    match name with
    | "outer_workers" =>
      (word 0x10000000000000000 "usize" v).map fun x => { c with outerWorkers := some x }
    | "inner_workers" =>
      (word 0x10000000000000000 "usize" v).map fun x => { c with innerWorkers := x }
    | "join_timeout_ms" =>
      (word 0x10000000000000000 "u64" v).map fun x => { c with joinTimeoutMs := some x }
    | _ => .error (unknownField name ["outer_workers", "inner_workers", "join_timeout_ms"])

/-- The section on push streams. -/
def streamShape : Shape StreamConfig where
  title := "StreamConfig"
  fields := ["count", "capacity"]
  set c name v :=
    match name with
    | "count" => (word 0x100000000 "u32" v).map fun x => { c with count := x }
    | "capacity" => (word 0x10000000000000000 "usize" v).map fun x => { c with capacity := x }
    | _ => .error (unknownField name ["count", "capacity"])

/-- The section on managed objects. -/
def managedShape : Shape ManagedConfig where
  title := "ManagedConfig"
  fields := ["object_name", "label", "counter"]
  set c name v :=
    match name with
    | "object_name" => (text v).map fun x => { c with objectName := x }
    | "label" => (text v).map fun x => { c with label := x }
    | "counter" => (signed v).map fun x => { c with counter := x }
    | _ => .error (unknownField name ["object_name", "label", "counter"])

/-! ### The whole -/

/-- The sections. -/
def shape : Shape Config where
  title := "Config"
  fields := ["log", "deferred", "pool", "stream", "managed"]
  set c name v :=
    match name with
    | "log" => (logShape.read {} v).map fun x => { c with log := x }
    | "deferred" => (deferredShape.read {} v).map fun x => { c with deferred := x }
    | "pool" => (poolShape.read {} v).map fun x => { c with pool := x }
    | "stream" => (streamShape.read {} v).map fun x => { c with stream := x }
    | "managed" => (managedShape.read {} v).map fun x => { c with managed := x }
    | _ => .error (unknownField name ["log", "deferred", "pool", "stream", "managed"])

/-- **The configuration that a document describes.** -/
def ofEntries (entries : List (String × Toml)) : Except ConfigFault Config :=
  match shape.setAll default entries with
  | .error message => .error (.parse (some message))
  | .ok c => c.validate.map fun _ => c

/-- The configuration in a text. -/
def ofText (s : String) : Except ConfigFault Config :=
  match Toml.parse? s with
  | none => .error (.parse none)
  | some entries => ofEntries entries

end Config

end Handoff
