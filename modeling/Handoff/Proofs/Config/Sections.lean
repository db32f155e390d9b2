import Handoff.Config.Document
import Handoff.Proofs.Toml.Regular

/-! # Sections and their fields

Every section declares its fields and what they take. A section is a table with some of them, or an array of
the first ones; it is read just if all that it gives is declared and taken, and then it holds what was given,
and in the other fields what it held before.

* `Config.declared`: the sections, their fields, and what the fields take.
* `Config.Fits`: documents that keep to it.
* `Config.held`: what a configuration holds under the name of a field.
* `Config.Fares`: how reading goes, of a field (`fares_text`, …), of a section (`Shape.Declares.read`) and of a
  document (`fares_shape`).
-/

namespace Handoff

namespace Config

/-! ### Fields -/

/-- What a field takes. -/
inductive Kind where
  | text
  /-- A number without sign, below a bound. -/
  | word (bound : Nat)
  /-- A 64-bit number with a sign. -/
  | signed
deriving DecidableEq, Repr

/-- **The values that a field takes.** -/
def Kind.Takes : Kind → Toml → Prop
  | text, v => ∃ s, v = .string s
  | word bound, v => ∃ n : Nat, n < bound ∧ v = .integer n
  | signed, v => ∃ n : Int64, v = .integer n.toInt

/-- **The sections and their fields**, in the order in which an array gives them. -/
def declared : List (String × List (String × Kind)) := [
  ("log", [("level", .text)]),
  ("deferred", [("head", .text), ("tail", .text), ("delay_ms", .word 0x10000000000000000)]),
  ("pool", [("outer_workers", .word 0x10000000000000000), ("inner_workers", .word 0x10000000000000000),
    ("join_timeout_ms", .word 0x10000000000000000)]),
  ("stream", [("count", .word 0x100000000), ("capacity", .word 0x10000000000000000)]),
  ("managed", [("object_name", .text), ("label", .text), ("counter", .signed)])]

/-- The names of fields. -/
def names (fields : List (String × Kind)) : List String := fields.map Prod.fst

/-- The fields of a section. -/
def fieldsOf (sectionName : String) : List (String × Kind) := (declared.lookup sectionName).getD []

/-- Whether a value may be given under a name. -/
def TakenIn (fields : List (String × Kind)) (name : String) (v : Toml) : Prop :=
  ∃ kind, (name, kind) ∈ fields ∧ kind.Takes v

/-- What a section gives: a table its entries, an array the values of the first fields. Other values are no
sections. -/
def entriesOf? (fields : List (String × Kind)) : Toml → Option (List (String × Toml))
  | .table entries => some entries
  | .array items => some ((names fields).zip items)
  | _ => none

/-- **A section that keeps to its fields.** -/
def FitsSection (fields : List (String × Kind)) (v : Toml) : Prop :=
  ∃ es, entriesOf? fields v = some es ∧ ∀ e ∈ es, TakenIn fields e.1 e.2

/-- Whether a value may be given for a section. -/
def IsSection (name : String) (v : Toml) : Prop := ∃ fields, (name, fields) ∈ declared ∧ FitsSection fields v

/-- **A document that keeps to the sections.** -/
def Fits (entries : List (String × Toml)) : Prop := ∀ e ∈ entries, IsSection e.1 e.2

/-- What a section gives for a field. -/
def givenIn (fields : List (String × Kind)) (v : Toml) (field : String) : Option Toml :=
  (entriesOf? fields v).bind (·.lookup field)

/-- **What a document gives for a field.** -/
def given (entries : List (String × Toml)) (sectionName field : String) : Option Toml :=
  (entries.lookup sectionName).bind fun v => givenIn (fieldsOf sectionName) v field

end Config

/-! ### What is held -/

/-- What the section on logging holds, by the names of its fields. -/
def LogConfig.held (c : LogConfig) : String → Option Toml
  | "level" => some (.string c.level)
  | _ => none

/-- What the section on deferred values holds. -/
def DeferredConfig.held (c : DeferredConfig) : String → Option Toml
  | "head" => some (.string c.head)
  | "tail" => some (.string c.tail)
  | "delay_ms" => some (.integer c.delayMs)
  | _ => none

/-- What the section on worker pools holds. -/
def PoolConfig.held (c : PoolConfig) : String → Option Toml
  | "outer_workers" => c.outerWorkers.map fun n : Nat => .integer n
  | "inner_workers" => some (.integer c.innerWorkers)
  | "join_timeout_ms" => c.joinTimeoutMs.map fun n : Nat => .integer n
  | _ => none

/-- What the section on push streams holds. -/
def StreamConfig.held (c : StreamConfig) : String → Option Toml
  | "count" => some (.integer c.count)
  | "capacity" => some (.integer c.capacity)
  | _ => none

/-- What the section on managed objects holds. -/
def ManagedConfig.held (c : ManagedConfig) : String → Option Toml
  | "object_name" => some (.string c.objectName)
  | "label" => some (.string c.label)
  | "counter" => some (.integer c.counter.toInt)
  | _ => none

namespace Config

/-- **What a configuration holds**, by the names of a section and a field. -/
def held (c : Config) : String → String → Option Toml
  | "log" => c.log.held
  | "deferred" => c.deferred.held
  | "pool" => c.pool.held
  | "stream" => c.stream.held
  | "managed" => c.managed.held
  | _ => fun _ => none

end Config

section Ext

theorem LogConfig.ext_held {c c' : LogConfig} (h : ∀ f, c.held f = c'.held f) : c = c' := by
  have hlevel := h "level"
  simp only [held, Option.some.injEq, Toml.string.injEq] at hlevel
  cases c
  simp_all

theorem DeferredConfig.ext_held {c c' : DeferredConfig} (h : ∀ f, c.held f = c'.held f) : c = c' := by
  have hhead := h "head"
  have htail := h "tail"
  have hdelay := h "delay_ms"
  simp only [held, Option.some.injEq, Toml.string.injEq, Toml.integer.injEq, Int.ofNat_inj] at hhead htail hdelay
  cases c
  simp_all

theorem PoolConfig.ext_held {c c' : PoolConfig} (h : ∀ f, c.held f = c'.held f) : c = c' := by
  have hword : Function.Injective (Option.map fun n : Nat => Toml.integer n) :=
    Option.map_injective fun a b hab => by simpa only [Toml.integer.injEq, Int.ofNat_inj] using hab
  have houter : c.outerWorkers = c'.outerWorkers := hword (h "outer_workers")
  have hinner := h "inner_workers"
  have hlimit : c.joinTimeoutMs = c'.joinTimeoutMs := hword (h "join_timeout_ms")
  simp only [held, Option.some.injEq, Toml.integer.injEq, Int.ofNat_inj] at hinner
  cases c
  simp_all

theorem StreamConfig.ext_held {c c' : StreamConfig} (h : ∀ f, c.held f = c'.held f) : c = c' := by
  have hcount := h "count"
  have hcapacity := h "capacity"
  simp only [held, Option.some.injEq, Toml.integer.injEq, Int.ofNat_inj] at hcount hcapacity
  cases c
  simp_all

theorem ManagedConfig.ext_held {c c' : ManagedConfig} (h : ∀ f, c.held f = c'.held f) : c = c' := by
  have hname := h "object_name"
  have hlabel := h "label"
  have hcounter := h "counter"
  simp only [held, Option.some.injEq, Toml.string.injEq, Toml.integer.injEq, Int64.toInt_inj]
    at hname hlabel hcounter
  cases c
  simp_all

/-- **A configuration is known from what it holds.** -/
theorem Config.ext_held {c c' : Config} (h : ∀ s f, c.held s f = c'.held s f) : c = c' := by
  have hlog : c.log = c'.log := LogConfig.ext_held (h "log")
  have hdeferred : c.deferred = c'.deferred := DeferredConfig.ext_held (h "deferred")
  have hpool : c.pool = c'.pool := PoolConfig.ext_held (h "pool")
  have hstream : c.stream = c'.stream := StreamConfig.ext_held (h "stream")
  have hmanaged : c.managed = c'.managed := ManagedConfig.ext_held (h "managed")
  cases c
  simp_all

end Ext

namespace Config

/-! ### How reading goes -/

section Fares

variable {α β : Type} {fits fits' : Prop} {kept : α → Prop} {kept' : β → Prop} {x : Except String α}

/-- **How reading goes**: it comes to what was to be kept just if all fits. -/
def Fares (fits : Prop) (kept : α → Prop) : Except String α → Prop
  | .ok c => fits ∧ kept c
  | .error _ => ¬ fits

theorem Fares.map {f : α → β} (h : Fares fits kept x) (hfits : fits ↔ fits')
    (hkept : ∀ a, kept a → kept' (f a)) : Fares fits' kept' (x.map f) := by
  cases x with
  | error m => exact fun hf => h (hfits.2 hf)
  | ok a => exact ⟨hfits.1 h.1, hkept a h.2⟩

theorem Fares.bind {f : α → Except String β} (h : Fares fits kept x)
    (hf : ∀ a, kept a → Fares fits' kept' (f a)) : Fares (fits ∧ fits') kept' (x >>= f) := by
  cases x with
  | error m => exact fun hboth => h hboth.1
  | ok a =>
    have hnext := hf a h.2
    show Fares _ _ (f a)
    rcases hfa : f a with m | b <;> rw [hfa] at hnext
    · exact fun hboth => hnext hboth.2
    · exact ⟨⟨h.1, hnext.1⟩, hnext.2⟩

theorem Fares.congr (h : Fares fits kept x) (hfits : fits ↔ fits') {kept' : α → Prop}
    (hkept : ∀ a, kept a → kept' a) : Fares fits' kept' x := by
  cases x with
  | error m => exact fun hf => h (hfits.2 hf)
  | ok a => exact ⟨hfits.1 h.1, hkept a h.2⟩

theorem Fares.exists_ok (h : Fares fits kept x) (hf : fits) : ∃ a, x = .ok a ∧ kept a := by
  cases x with
  | error m => exact absurd hf h
  | ok a => exact ⟨a, rfl, h.2⟩

theorem Fares.exists_error (h : Fares fits kept x) (hf : ¬ fits) : ∃ m, x = .error m := by
  cases x with
  | error m => exact ⟨m, rfl⟩
  | ok a => exact absurd h.1 hf

end Fares

theorem fares_text (v : Toml) : Fares (Kind.text.Takes v) (fun s => v = .string s) (text v) := by
  cases v with
  | string s => exact ⟨⟨s, rfl⟩, rfl⟩
  | _ => rintro ⟨s, hs⟩; cases hs

theorem fares_word (bound : Nat) (expected : String) (v : Toml) :
    Fares ((Kind.word bound).Takes v) (fun n : Nat => v = .integer n) (word bound expected v) := by
  cases v with
  | integer n =>
    rw [word]
    split_ifs with h
    · have hn : Toml.integer n = .integer (n.toNat : Int) := by rw [Int.toNat_of_nonneg h.1]
      exact ⟨⟨n.toNat, by omega, hn⟩, hn⟩
    · rintro ⟨m, hm, heq⟩
      cases heq
      exact h ⟨by omega, by omega⟩
  | _ => rintro ⟨n, -, hn⟩; cases hn

/-- The integers of a document fit into the field. -/
theorem fares_signed {v : Toml} (hv : v.Regular) :
    Fares (Kind.signed.Takes v) (fun n => v = .integer n.toInt) (signed v) := by
  cases hv with
  | @integer n h =>
    have hn : Toml.integer n = .integer (Int64.ofInt n).toInt := by
      rw [Int64.toInt_ofInt_of_le (by simpa using h.1) (by simpa using h.2)]
    exact ⟨⟨_, hn⟩, hn⟩
  | _ => rintro ⟨n, hn⟩; cases hn

/-! ### Entries one after the other -/

section Lawful

variable {σ β : Type} {s : Shape σ} {takes : String → Toml → Prop} {kept : String → Toml → β}
  {held : σ → String → β}

/-- One thing is put in under a name, and all else stays as it was. -/
def Puts (held : σ → String → β) (name : String) (b : β) (c c' : σ) : Prop :=
  ∀ f, held c' f = if f = name then b else held c f

/-- **What it means to give one entry**: it is put in just if it may be given. -/
structure Shape.Lawful (s : Shape σ) (takes : String → Toml → Prop) (kept : String → Toml → β)
    (held : σ → String → β) : Prop where
  set : ∀ (c : σ) (name : String) {v : Toml}, v.Regular →
    Fares (takes name v) (Puts held name (kept name v) c) (s.set c name v)

/-- **Entries that are given one after the other** are kept under their names. -/
theorem Shape.Lawful.setAll (h : s.Lawful takes kept held) {es : List (String × Toml)}
    (hes : Keyed Toml.Regular es) (c : σ) :
    Fares (∀ e ∈ es, takes e.1 e.2) (fun c' => ∀ f, held c' f = (es.lookup f).elim (held c f) (kept f))
      (s.setAll c es) := by
  induction es generalizing c with
  | nil => exact ⟨by simp, fun f => rfl⟩
  | cons e es ih =>
    obtain ⟨name, v⟩ := e
    obtain ⟨hnot, hnodup⟩ := List.nodup_cons.1 hes.nodup
    have hrest : Keyed Toml.Regular es := ⟨hnodup, fun e he => hes.all e (List.mem_cons_of_mem _ he)⟩
    have hset := h.set c name (hes.all (name, v) (List.mem_cons_self ..))
    have hall : (takes name v ∧ ∀ e ∈ es, takes e.1 e.2) ↔ ∀ e ∈ (name, v) :: es, takes e.1 e.2 := by
      rw [List.forall_mem_cons]
    rw [Shape.setAll, List.foldlM_cons]
    refine (hset.bind fun c' hc' => (ih hrest c').congr Iff.rfl fun c'' hc'' f => ?_).congr hall
      fun _ hkept => hkept
    rw [hc'' f, hc' f, List.lookup_cons]
    -- the names are distinct, so what was put in first is not overwritten
    by_cases hf : f = name
    · subst hf
      simp [lookup_eq_none hnot]
    · have hfalse : (f == name) = false := by simpa using hf
      rw [if_neg hf, hfalse]

end Lawful

/-! ### Sections -/

section Sections

variable {σ : Type} {s : Shape σ} {fields : List (String × Kind)} {held : σ → String → Option Toml}

/-- The shape of a section with fields of its own. -/
structure Shape.Declares (s : Shape σ) (fields : List (String × Kind)) (held : σ → String → Option Toml) :
    Prop where
  fields_eq : s.fields = names fields
  nodup : (names fields).Nodup
  lawful : s.Lawful (TakenIn fields) (fun _ => some) held

theorem map_fst_zip_sublist (ns : List String) (items : List Toml) : ((ns.zip items).map Prod.fst).Sublist ns := by
  induction ns generalizing items with
  | nil => simp
  | cons n ns ih =>
    cases items with
    | nil => simp
    | cons v items => exact (ih items).cons_cons n

/-- What an array gives is regular, under names of their own. -/
theorem keyed_zip {ns : List String} {items : List Toml} (hns : ns.Nodup) (h : ∀ v ∈ items, v.Regular) :
    Keyed Toml.Regular (ns.zip items) :=
  ⟨hns.sublist (map_fst_zip_sublist ns items), fun _ he => h _ (List.of_mem_zip he).2⟩

/-- What a section gives is regular. -/
theorem keyed_entriesOf? {v : Toml} (hv : v.Regular) (hnodup : (names fields).Nodup) {es : List (String × Toml)}
    (h : entriesOf? fields v = some es) : Keyed Toml.Regular es := by
  cases v with
  | table entries =>
    cases h
    exact hv.entries
  | array items =>
    cases h
    exact keyed_zip hnodup hv.items
  | _ => cases h

/-- **A section is read** just if it keeps to its fields; then it holds what it gives. -/
theorem Shape.Declares.read (h : s.Declares fields held) (c : σ) {v : Toml} (hv : v.Regular) :
    Fares (FitsSection fields v) (fun c' => ∀ f, held c' f = (givenIn fields v f).or (held c f)) (s.read c v) := by
  have hentries : ∀ {es}, entriesOf? fields v = some es →
      Fares (FitsSection fields v) (fun c' => ∀ f, held c' f = (givenIn fields v f).or (held c f))
        (s.setAll c es) := by
    intro es hes
    -- a table gives its entries, an array the values of the first fields: both are entries under names of their own
    refine (h.lawful.setAll (keyed_entriesOf? hv h.nodup hes) c).congr ?_ fun c' hc' f => ?_
    · simp only [FitsSection, hes, Option.some.injEq, exists_eq_left']
    · rw [hc' f, givenIn, hes, Option.bind_some]
      cases es.lookup f <;> rfl
  have hnone : entriesOf? fields v = none → ¬ FitsSection fields v := by
    rintro hes ⟨es, hes', -⟩
    rw [hes] at hes'
    cases hes'
  cases v with
  | table entries => exact hentries rfl
  | array items =>
    rw [Shape.read, h.fields_eq]
    exact hentries rfl
  | _ => exact hnone rfl

end Sections

/-! ### The sections of a configuration -/

/-- A name under which there are fields is that of a section. -/
theorem mem_declared {name : String} (h : fieldsOf name ≠ []) : (name, fieldsOf name) ∈ declared := by
  rcases hname : declared.lookup name with - | fields
  · rw [fieldsOf, hname] at h
    exact absurd rfl h
  · rw [fieldsOf, hname]
    exact mem_of_lookup hname

theorem nodup_fieldsOf (name : String) : (names (fieldsOf name)).Nodup := by
  have hall : ∀ e ∈ declared, (names e.2).Nodup := by decide
  by_cases h : fieldsOf name = []
  · rw [h]
    exact List.nodup_nil
  · exact hall _ (mem_declared h)

theorem takenIn_iff {fields : List (String × Kind)} {name : String} {kind : Kind} {v : Toml}
    (hnodup : (names fields).Nodup) (h : (name, kind) ∈ fields) : TakenIn fields name v ↔ kind.Takes v := by
  refine ⟨fun ⟨kind', h', hv⟩ => ?_, fun hv => ⟨kind, h, hv⟩⟩
  have heq := List.inj_on_of_nodup_map hnodup h h' rfl
  cases heq
  exact hv

theorem not_takenIn {fields : List (String × Kind)} {name : String} {v : Toml} (h : name ∉ names fields) :
    ¬ TakenIn fields name v := by
  rintro ⟨kind, hkind, -⟩
  exact h (List.mem_map_of_mem hkind)

section Field

variable {σ : Type} {sec name : String} {held : σ → String → Option Toml} {c : σ}

/-- A field of text. -/
theorem fares_textField (h : (name, .text) ∈ fieldsOf sec) {put : String → σ}
    (hput : ∀ x, Puts held name (some (.string x)) c (put x)) (v : Toml) :
    Fares (TakenIn (fieldsOf sec) name v) (Puts held name (some v) c) ((text v).map put) := by
  refine (fares_text v).map (takenIn_iff (nodup_fieldsOf sec) h).symm ?_
  rintro x rfl
  exact hput x

/-- A field with a number without sign. -/
theorem fares_wordField {bound : Nat} (h : (name, .word bound) ∈ fieldsOf sec) {put : Nat → σ}
    (hput : ∀ x : Nat, Puts held name (some (.integer x)) c (put x)) (expected : String) (v : Toml) :
    Fares (TakenIn (fieldsOf sec) name v) (Puts held name (some v) c) ((word bound expected v).map put) := by
  refine (fares_word bound expected v).map (takenIn_iff (nodup_fieldsOf sec) h).symm ?_
  rintro x rfl
  exact hput x

/-- A field with a number with a sign. -/
theorem fares_signedField (h : (name, .signed) ∈ fieldsOf sec) {put : Int64 → σ}
    (hput : ∀ x : Int64, Puts held name (some (.integer x.toInt)) c (put x)) {v : Toml} (hv : v.Regular) :
    Fares (TakenIn (fieldsOf sec) name v) (Puts held name (some v) c) ((signed v).map put) := by
  refine (fares_signed hv).map (takenIn_iff (nodup_fieldsOf sec) h).symm ?_
  rintro x rfl
  exact hput x

end Field

theorem declares_log : logShape.Declares (fieldsOf "log") LogConfig.held where
  fields_eq := rfl
  nodup := nodup_fieldsOf _
  lawful := by
    refine ⟨fun c name v _ => ?_⟩
    simp only [logShape]
    split
    case h_1 => exact fares_textField (by decide) (fun x f => by unfold LogConfig.held; grind) v
    case h_2 hlevel => exact not_takenIn (by show name ∉ ["level"]; simpa using hlevel)

theorem declares_deferred : deferredShape.Declares (fieldsOf "deferred") DeferredConfig.held where
  fields_eq := rfl
  nodup := nodup_fieldsOf _
  lawful := by
    refine ⟨fun c name v _ => ?_⟩
    simp only [deferredShape]
    split
    case h_1 => exact fares_textField (by decide) (fun x f => by unfold DeferredConfig.held; grind) v
    case h_2 => exact fares_textField (by decide) (fun x f => by unfold DeferredConfig.held; grind) v
    case h_3 => exact fares_wordField (by decide) (fun x f => by unfold DeferredConfig.held; grind) _ v
    case h_4 hhead htail hdelay =>
      exact not_takenIn (by show name ∉ ["head", "tail", "delay_ms"]; simpa using ⟨hhead, htail, hdelay⟩)

theorem declares_pool : poolShape.Declares (fieldsOf "pool") PoolConfig.held where
  fields_eq := rfl
  nodup := nodup_fieldsOf _
  lawful := by
    refine ⟨fun c name v _ => ?_⟩
    simp only [poolShape]
    split
    case h_1 => exact fares_wordField (by decide) (fun x f => by unfold PoolConfig.held; grind) _ v
    case h_2 => exact fares_wordField (by decide) (fun x f => by unfold PoolConfig.held; grind) _ v
    case h_3 => exact fares_wordField (by decide) (fun x f => by unfold PoolConfig.held; grind) _ v
    case h_4 houter hinner hlimit =>
      exact not_takenIn (by
        show name ∉ ["outer_workers", "inner_workers", "join_timeout_ms"]
        simpa using ⟨houter, hinner, hlimit⟩)

theorem declares_stream : streamShape.Declares (fieldsOf "stream") StreamConfig.held where
  fields_eq := rfl
  nodup := nodup_fieldsOf _
  lawful := by
    refine ⟨fun c name v _ => ?_⟩
    simp only [streamShape]
    split
    case h_1 => exact fares_wordField (by decide) (fun x f => by unfold StreamConfig.held; grind) _ v
    case h_2 => exact fares_wordField (by decide) (fun x f => by unfold StreamConfig.held; grind) _ v
    case h_3 hcount hcapacity =>
      exact not_takenIn (by show name ∉ ["count", "capacity"]; simpa using ⟨hcount, hcapacity⟩)

theorem declares_managed : managedShape.Declares (fieldsOf "managed") ManagedConfig.held where
  fields_eq := rfl
  nodup := nodup_fieldsOf _
  lawful := by
    refine ⟨fun c name v hv => ?_⟩
    simp only [managedShape]
    split
    case h_1 => exact fares_textField (by decide) (fun x f => by unfold ManagedConfig.held; grind) v
    case h_2 => exact fares_textField (by decide) (fun x f => by unfold ManagedConfig.held; grind) v
    case h_3 => exact fares_signedField (by decide) (fun x f => by unfold ManagedConfig.held; grind) hv
    case h_4 hname hlabel hcounter =>
      exact not_takenIn (by show name ∉ ["object_name", "label", "counter"]; simpa using ⟨hname, hlabel, hcounter⟩)

/-! ### The whole -/

theorem fieldsOf_of_mem {name : String} {fields : List (String × Kind)} (h : (name, fields) ∈ declared) :
    fieldsOf name = fields := by
  simp only [declared, List.mem_cons, Prod.mk.injEq, List.not_mem_nil, or_false] at h
  rcases h with ⟨rfl, rfl⟩ | ⟨rfl, rfl⟩ | ⟨rfl, rfl⟩ | ⟨rfl, rfl⟩ | ⟨rfl, rfl⟩ <;> rfl

theorem isSection_iff {name : String} {v : Toml} (h : (name, fieldsOf name) ∈ declared) :
    IsSection name v ↔ FitsSection (fieldsOf name) v := by
  refine ⟨fun ⟨fields, hfields, hv⟩ => ?_, fun hv => ⟨fieldsOf name, h, hv⟩⟩
  rw [fieldsOf_of_mem hfields]
  exact hv

theorem not_isSection {name : String} {v : Toml} (h : name ∉ declared.map Prod.fst) : ¬ IsSection name v := by
  rintro ⟨fields, hfields, -⟩
  exact h (List.mem_map_of_mem hfields)

/-- What a configuration holds once a section is given: its fields, and the defaults of its other fields. -/
def keptOf (name : String) (v : Toml) (field : String) : Option Toml :=
  (givenIn (fieldsOf name) v field).or (default.held name field)

/-- One section of a document: reading it and putting it in. -/
theorem fares_section {σ : Type} {s : Shape σ} {name : String} {held : σ → String → Option Toml} {start : σ}
    (hs : s.Declares (fieldsOf name) held) (hname : (name, fieldsOf name) ∈ declared)
    (hstart : held start = default.held name) {c : Config} {put : σ → Config}
    (hput : ∀ x, Puts Config.held name (held x) c (put x)) {v : Toml} (hv : v.Regular) :
    Fares (IsSection name v) (Puts Config.held name (keptOf name v) c) ((s.read start v).map put) := by
  refine (hs.read start hv).map (isSection_iff hname).symm fun x hx => ?_
  have hkept : held x = keptOf name v := by
    funext field
    rw [hx field, hstart, keptOf]
  rw [← hkept]
  exact hput x

/-- **The sections of a document** are read under their names, each over its defaults. -/
theorem lawful_shape : shape.Lawful IsSection keptOf held := by
  refine ⟨fun c name v hv => ?_⟩
  simp only [shape]
  split
  case h_1 => exact fares_section declares_log (by decide) rfl (fun x f => by unfold held; grind) hv
  case h_2 => exact fares_section declares_deferred (by decide) rfl (fun x f => by unfold held; grind) hv
  case h_3 => exact fares_section declares_pool (by decide) rfl (fun x f => by unfold held; grind) hv
  case h_4 => exact fares_section declares_stream (by decide) rfl (fun x f => by unfold held; grind) hv
  case h_5 => exact fares_section declares_managed (by decide) rfl (fun x f => by unfold held; grind) hv
  case h_6 hlog hdeferred hpool hstream hmanaged =>
    exact not_isSection (by
      show name ∉ ["log", "deferred", "pool", "stream", "managed"]
      simpa using ⟨hlog, hdeferred, hpool, hstream, hmanaged⟩)

/-- **A document is read** just if it keeps to the sections; then every field holds what is given for it, else its
default. -/
theorem fares_shape {entries : List (String × Toml)} (h : Keyed Toml.Regular entries) :
    Fares (Fits entries)
      (fun c => ∀ name field, c.held name field = (given entries name field).or (default.held name field))
      (shape.setAll default entries) := by
  refine (lawful_shape.setAll h default).congr Iff.rfl fun c hc name field => ?_
  rw [hc name, given]
  cases entries.lookup name <;> rfl

end Config

end Handoff
