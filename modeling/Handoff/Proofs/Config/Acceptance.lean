import Mathlib
import Handoff.Proofs.Config.Sections
import Handoff.Proofs.Toml.Regular

/-! # Which configurations are accepted

A document that keeps to the sections describes one configuration: every field holds what is given for it, else
its default. The text is accepted just if that configuration keeps four rules, and otherwise the first broken rule
is reported; that a value or a name does not fit is reported before any rule.

* `Config.Describes`: the configuration that a document describes.
* `Config.Rule`, `Config.BreaksFirst`: the rules, and the one that is reported.
* `Config.SameDocument`: documents that differ in their order and in how their sections are written.
* `Config.ofText_accepts_exactly`: what becomes of every text that is a document.
-/

namespace Handoff.Config

/-! ### What a document describes -/

/-- **The configuration that a document describes**: every field holds what is given for it, else its default. -/
def Describes (entries : List (String × Toml)) (c : Config) : Prop :=
  ∀ name field, c.held name field = (given entries name field).or (default.held name field)

variable {entries entries' : List (String × Toml)} {c c' : Config}

theorem Describes.unique (h : Describes entries c) (h' : Describes entries c') : c = c' :=
  ext_held fun name field => (h name field).trans (h' name field).symm

theorem exists_describes (hkeyed : Keyed Toml.Regular entries) (hfits : Fits entries) :
    ∃ c, shape.setAll default entries = .ok c ∧ Describes entries c :=
  (fares_shape hkeyed).exists_ok hfits

/-! ### Rules -/

/-- The rules that go beyond the types of the fields. -/
inductive Rule where
  | outerWorkers
  | innerWorkers
  | capacity
  | objectName
deriving DecidableEq, Repr

namespace Rule

/-- **The place of a rule** in the order in which they are checked. -/
def place : Rule → Nat
  | outerWorkers => 0
  | innerWorkers => 1
  | capacity => 2
  | objectName => 3

/-- The field that a rule is about. -/
def field : Rule → String
  | outerWorkers => "pool.outer_workers"
  | innerWorkers => "pool.inner_workers"
  | capacity => "stream.capacity"
  | objectName => "managed.object_name"

/-- What a rule demands. A number of workers that is left to the machine is never too small. -/
def Kept (c : Config) : Rule → Prop
  | outerWorkers => ∀ n, c.pool.outerWorkers = some n → 1 ≤ n
  | innerWorkers => 1 ≤ c.pool.innerWorkers
  | capacity => 1 ≤ c.stream.capacity
  | objectName => ∃ name, ObjectName.parse c.managed.objectName = .ok name

/-- The reason that is given where a rule is broken. -/
def Reason (c : Config) : Rule → String → Prop
  | objectName, reason => ∃ e, ObjectName.parse c.managed.objectName = .error e ∧ reason = e.text
  | _, reason => reason = "must be at least 1"

end Rule

/-- The rule that a configuration breaks, the earlier ones being kept. -/
structure BreaksFirst (c : Config) (rule : Rule) : Prop where
  broken : ¬ rule.Kept c
  kept : ∀ r : Rule, r.place < rule.place → r.Kept c

/-- A configuration keeps all rules, or breaks one first. -/
theorem kept_or_breaksFirst (c : Config) : (∀ r : Rule, r.Kept c) ∨ ∃ rule, BreaksFirst c rule := by
  by_cases h : ∀ r : Rule, r.Kept c
  · exact .inl h
  · obtain ⟨rule, hbroken, hfirst⟩ := (measure Rule.place).wf.has_min {r | ¬ r.Kept c} (not_forall.1 h)
    refine .inr ⟨rule, hbroken, fun r hr => ?_⟩
    by_contra hnot
    exact hfirst r hnot hr

theorem Rule.kept_outerWorkers_iff : outerWorkers.Kept c ↔ c.pool.outerWorkers ≠ some 0 := by
  constructor
  · intro h hzero
    have := h 0 hzero
    omega
  · intro h n hn
    rcases Nat.eq_zero_or_pos n with rfl | hpos
    · exact absurd hn h
    · exact hpos

theorem Rule.kept_innerWorkers_iff : innerWorkers.Kept c ↔ c.pool.innerWorkers ≠ 0 := Nat.one_le_iff_ne_zero

theorem Rule.kept_capacity_iff : capacity.Kept c ↔ c.stream.capacity ≠ 0 := Nat.one_le_iff_ne_zero

/-- **Where all rules are kept** there is nothing to report. -/
theorem validate_of_kept (h : ∀ r : Rule, r.Kept c) : c.validate = .ok () := by
  obtain ⟨name, hname⟩ := h .objectName
  have hfault : c.fault? = none := by
    rw [fault?, if_neg (Rule.kept_outerWorkers_iff.1 (h .outerWorkers)),
      if_neg (Rule.kept_innerWorkers_iff.1 (h .innerWorkers)), if_neg (Rule.kept_capacity_iff.1 (h .capacity)),
      hname]
  rw [validate, hfault]

/-- **The first broken rule** is reported, with its field and its reason. -/
theorem validate_of_breaksFirst {rule : Rule} (h : BreaksFirst c rule) :
    ∃ reason, rule.Reason c reason ∧ c.validate = .error (.invalid rule.field reason) := by
  -- the earlier rules are kept, so the checks before this one pass
  have hfault : ∃ reason, rule.Reason c reason ∧ c.fault? = some (.invalid rule.field reason) := by
    rw [fault?]
    cases rule with
    | outerWorkers =>
      have hzero : c.pool.outerWorkers = some 0 := by
        by_contra hne
        exact h.broken (Rule.kept_outerWorkers_iff.2 hne)
      exact ⟨_, rfl, if_pos hzero⟩
    | innerWorkers =>
      have houter := Rule.kept_outerWorkers_iff.1 (h.kept .outerWorkers (by decide))
      have hzero : c.pool.innerWorkers = 0 := by
        by_contra hne
        exact h.broken (Rule.kept_innerWorkers_iff.2 hne)
      exact ⟨_, rfl, by rw [if_neg houter, if_pos hzero]; rfl⟩
    | capacity =>
      have houter := Rule.kept_outerWorkers_iff.1 (h.kept .outerWorkers (by decide))
      have hinner := Rule.kept_innerWorkers_iff.1 (h.kept .innerWorkers (by decide))
      have hzero : c.stream.capacity = 0 := by
        by_contra hne
        exact h.broken (Rule.kept_capacity_iff.2 hne)
      exact ⟨_, rfl, by rw [if_neg houter, if_neg hinner, if_pos hzero]; rfl⟩
    | objectName =>
      have houter := Rule.kept_outerWorkers_iff.1 (h.kept .outerWorkers (by decide))
      have hinner := Rule.kept_innerWorkers_iff.1 (h.kept .innerWorkers (by decide))
      have hcapacity := Rule.kept_capacity_iff.1 (h.kept .capacity (by decide))
      rcases hparse : ObjectName.parse c.managed.objectName with e | name
      · exact ⟨e.text, ⟨e, hparse, rfl⟩, by rw [if_neg houter, if_neg hinner, if_neg hcapacity]; rfl⟩
      · exact absurd ⟨name, hparse⟩ h.broken
  obtain ⟨reason, hreason, hfault⟩ := hfault
  exact ⟨reason, hreason, by rw [validate, hfault]⟩

/-- A configuration that passes the checks keeps all rules. -/
theorem kept_of_validate (h : c.validate = .ok ()) (r : Rule) : r.Kept c := by
  rcases kept_or_breaksFirst c with hkept | ⟨rule, hrule⟩
  · exact hkept r
  · obtain ⟨reason, -, hinvalid⟩ := validate_of_breaksFirst hrule
    rw [hinvalid] at h
    cases h

/-! ### What becomes of a document -/

/-- What becomes of a text that is a document. -/
theorem ofText_eq {s : String} (h : Toml.parse? s = some entries) : ofText s = ofEntries entries := by
  rw [ofText, h]

/-- **A document that does not keep to the sections** is refused for it, whatever its values. -/
theorem ofEntries_of_not_fits (hkeyed : Keyed Toml.Regular entries) (h : ¬ Fits entries) :
    ∃ message, ofEntries entries = .error (.parse (some message)) := by
  obtain ⟨message, hm⟩ := (fares_shape hkeyed).exists_error h
  exact ⟨message, by rw [ofEntries, hm]⟩

/-- What is checked of a document that keeps to the sections. -/
theorem ofEntries_of_describes (hkeyed : Keyed Toml.Regular entries) (hfits : Fits entries)
    (hc : Describes entries c) : ofEntries entries = c.validate.map fun _ => c := by
  obtain ⟨c', hset, hc'⟩ := exists_describes hkeyed hfits
  rw [ofEntries, hset, hc'.unique hc]

theorem ofEntries_eq_ok_iff (hkeyed : Keyed Toml.Regular entries) :
    ofEntries entries = .ok c ↔ Fits entries ∧ Describes entries c ∧ ∀ r : Rule, r.Kept c := by
  constructor
  · intro h
    by_cases hfits : Fits entries
    · obtain ⟨c', -, hc'⟩ := exists_describes hkeyed hfits
      rw [ofEntries_of_describes hkeyed hfits hc'] at h
      rcases kept_or_breaksFirst c' with hkept | ⟨rule, hrule⟩
      · rw [validate_of_kept hkept] at h
        cases h
        exact ⟨hfits, hc', hkept⟩
      · obtain ⟨reason, -, hinvalid⟩ := validate_of_breaksFirst hrule
        rw [hinvalid] at h
        cases h
    · obtain ⟨message, hm⟩ := ofEntries_of_not_fits hkeyed hfits
      rw [hm] at h
      cases h
  · rintro ⟨hfits, hc, hkept⟩
    rw [ofEntries_of_describes hkeyed hfits hc, validate_of_kept hkept]
    rfl

theorem Describes.joinTimeoutMs (h : Describes entries c) : c.pool.joinTimeoutMs ≠ none := by
  intro hnone
  have hheld := h "pool" "join_timeout_ms"
  have hdefault : default.held "pool" "join_timeout_ms" = some (.integer 5000) := rfl
  have hempty : c.held "pool" "join_timeout_ms" = none :=
    congrArg (Option.map fun n : Nat => Toml.integer n) hnone
  rw [hdefault, hempty] at hheld
  cases hgiven : given entries "pool" "join_timeout_ms" <;> rw [hgiven] at hheld <;> cases hheld

/-! ### Documents that say the same -/

/-- **Two ways to write a section** with the same fields: in another order, or with an array of the first fields
in place of a table. -/
def SameSection (fields : List (String × Kind)) (v v' : Toml) : Prop :=
  Option.Rel List.Perm (entriesOf? fields v) (entriesOf? fields v')

/-- Sections one after the other, each written in two ways. -/
def SameSections (entries entries' : List (String × Toml)) : Prop :=
  List.Forall₂ (fun e e' => e.1 = e'.1 ∧ SameSection (fieldsOf e.1) e.2 e'.2) entries entries'

/-- **Two ways to write a document**: with the sections in another order, and each written in another way. -/
def SameDocument (entries entries' : List (String × Toml)) : Prop :=
  ∃ ordered, entries.Perm ordered ∧ SameSections ordered entries'

section SameSection

variable {fields : List (String × Kind)} {name : String} {v v' : Toml}

theorem SameSection.fits_iff (h : SameSection fields v v') : FitsSection fields v ↔ FitsSection fields v' := by
  unfold SameSection at h
  unfold FitsSection
  generalize entriesOf? fields v = given at h ⊢
  generalize entriesOf? fields v' = given' at h ⊢
  cases h with
  | none => exact Iff.rfl
  | some hperm => simp only [Option.some.injEq, exists_eq_left', hperm.mem_iff]

theorem SameSection.givenIn_eq (h : SameSection fields v v') (hnodup : (names fields).Nodup) (hv : v.Regular)
    (field : String) : givenIn fields v field = givenIn fields v' field := by
  have hkeyed : ∀ {es}, entriesOf? fields v = some es → Keyed Toml.Regular es := keyed_entriesOf? hv hnodup
  unfold SameSection at h
  unfold givenIn
  generalize entriesOf? fields v = given at h hkeyed ⊢
  generalize entriesOf? fields v' = given' at h ⊢
  cases h with
  | none => rfl
  | some hperm => exact (hkeyed rfl).lookup_perm hperm field

theorem SameSection.isSection_iff (h : SameSection (fieldsOf name) v v') :
    IsSection name v ↔ IsSection name v' := by
  unfold IsSection
  refine exists_congr fun fields => and_congr_right fun hfields => ?_
  rw [← fieldsOf_of_mem hfields]
  exact h.fits_iff

end SameSection

theorem SameSections.fits_iff (h : SameSections entries entries') : Fits entries ↔ Fits entries' := by
  unfold Fits
  induction h with
  | nil => exact Iff.rfl
  | @cons e e' es es' he _ ih =>
    obtain ⟨hname, hsame⟩ := he
    rw [List.forall_mem_cons, List.forall_mem_cons, ih, hsame.isSection_iff, hname]

theorem SameSections.lookup (h : SameSections entries entries') (name : String) :
    Option.Rel (SameSection (fieldsOf name)) (entries.lookup name) (entries'.lookup name) := by
  induction h with
  | nil => exact .none
  | @cons e e' es es' he _ ih =>
    obtain ⟨k, v⟩ := e
    obtain ⟨k', v'⟩ := e'
    obtain ⟨rfl, hsame⟩ := he
    by_cases hk : name = k
    · subst hk
      simpa using hsame
    · have hfalse : (name == k) = false := by simpa using hk
      rw [List.lookup_cons, List.lookup_cons, hfalse]
      exact ih

theorem SameDocument.fits_iff (h : SameDocument entries entries') : Fits entries ↔ Fits entries' := by
  obtain ⟨ordered, hperm, hsame⟩ := h
  rw [← hsame.fits_iff, Fits, Fits]
  simp only [hperm.mem_iff]

theorem SameDocument.given_eq (h : SameDocument entries entries') (hkeyed : Keyed Toml.Regular entries)
    (name field : String) : given entries name field = given entries' name field := by
  obtain ⟨ordered, hperm, hsame⟩ := h
  have hlookup := hsame.lookup name
  have hregular : ∀ {v}, ordered.lookup name = some v → v.Regular := (hkeyed.perm hperm).value
  rw [given, given, hkeyed.lookup_perm hperm]
  generalize ordered.lookup name = v at hlookup hregular ⊢
  generalize entries'.lookup name = v' at hlookup ⊢
  cases hlookup with
  | none => rfl
  | some hv => exact hv.givenIn_eq (nodup_fieldsOf name) (hregular rfl) field

theorem SameDocument.describes_iff (h : SameDocument entries entries') (hkeyed : Keyed Toml.Regular entries) :
    Describes entries c ↔ Describes entries' c := by
  unfold Describes
  simp only [h.given_eq hkeyed]

/-! ### Texts -/

/-- **Exactly the documents that keep to the sections and the rules are accepted.**

The text may be any that is a document of the format.
* It is accepted with a configuration just if the document keeps to the sections and describes that configuration,
  and the configuration keeps the rules. A document that keeps to the sections describes one configuration.
* A document that does not keep to the sections is refused for that, whatever rules are broken besides.
* Else, where a rule is broken, the first one is reported, with its field and its reason.
* A configuration that is accepted always limits how long a job is waited for.
* The same document in another order, or with other ways of writing its sections, is accepted just as well, with
  the same configuration. -/
theorem ofText_accepts_exactly {s : String} (hs : Toml.parse? s = some entries) :
    (∀ c, ofText s = .ok c ↔ Fits entries ∧ Describes entries c ∧ ∀ r : Rule, r.Kept c) ∧
    (Fits entries → ∃! c, Describes entries c) ∧
    (¬ Fits entries → ∃ message, ofText s = .error (.parse (some message))) ∧
    (Fits entries → ∀ c, Describes entries c → (∀ r : Rule, r.Kept c) ∨ ∃ rule reason, BreaksFirst c rule ∧
      rule.Reason c reason ∧ ofText s = .error (.invalid rule.field reason)) ∧
    (∀ c, ofText s = .ok c → c.pool.joinTimeoutMs ≠ none) ∧
    ∀ s' entries', Toml.parse? s' = some entries' → SameDocument entries entries' →
      ∀ c, ofText s' = .ok c ↔ ofText s = .ok c := by
  have hkeyed : Keyed Toml.Regular entries := Toml.keyed_parse hs
  have hok : ∀ c, ofText s = .ok c ↔ Fits entries ∧ Describes entries c ∧ ∀ r : Rule, r.Kept c := by
    intro c
    rw [ofText_eq hs]
    exact ofEntries_eq_ok_iff hkeyed
  refine ⟨hok, ?described, ?unfit, ?broken, ?limited, ?respelled⟩
  case described =>
    intro hfits
    obtain ⟨c, -, hc⟩ := exists_describes hkeyed hfits
    exact ⟨c, hc, fun c' hc' => hc'.unique hc⟩
  case unfit =>
    intro hfits
    rw [ofText_eq hs]
    exact ofEntries_of_not_fits hkeyed hfits
  case broken =>
    intro hfits c hc
    refine (kept_or_breaksFirst c).imp_right ?_
    rintro ⟨rule, hrule⟩
    obtain ⟨reason, hreason, hinvalid⟩ := validate_of_breaksFirst hrule
    refine ⟨rule, reason, hrule, hreason, ?_⟩
    rw [ofText_eq hs, ofEntries_of_describes hkeyed hfits hc, hinvalid]
    rfl
  case limited =>
    intro c hc
    exact ((hok c).1 hc).2.1.joinTimeoutMs
  case respelled =>
    intro s' entries' hs' hsame c
    rw [hok c, ofText_eq hs', ofEntries_eq_ok_iff (Toml.keyed_parse hs'), hsame.fits_iff,
      hsame.describes_iff hkeyed]

theorem ofText_accepts_exactly_swapped :
    ofText "[stream]\ncapacity = 4\n[pool]\ninner_workers = 3\nouter_workers = 2\n" =
      .ok { pool := { outerWorkers := some 2, innerWorkers := 3 }, stream := { capacity := 4 } } := by
  have hs : Toml.parse? "pool = [2, 3]\n[stream]\ncapacity = 4\n" =
      some [("pool", .array [.integer 2, .integer 3]), ("stream", .table [("capacity", .integer 4)])] := by cbv
  have hs' : Toml.parse? "[stream]\ncapacity = 4\n[pool]\ninner_workers = 3\nouter_workers = 2\n" =
      some [("stream", .table [("capacity", .integer 4)]),
        ("pool", .table [("inner_workers", .integer 3), ("outer_workers", .integer 2)])] := by cbv
  have hsame : SameDocument
      [("pool", .array [.integer 2, .integer 3]), ("stream", .table [("capacity", .integer 4)])]
      [("stream", .table [("capacity", .integer 4)]),
        ("pool", .table [("inner_workers", .integer 3), ("outer_workers", .integer 2)])] :=
    ⟨_, .swap _ _ _, .cons ⟨rfl, .some (.refl _)⟩ (.cons ⟨rfl, .some (.swap _ _ _)⟩ .nil)⟩
  obtain ⟨-, -, -, -, -, hrespelled⟩ := ofText_accepts_exactly hs
  refine (hrespelled _ _ hs' hsame _).2 ?_
  cbv

end Handoff.Config
