import Mathlib.Data.List.Nodup
import Mathlib.Data.Option.Basic
import Mathlib.Tactic.SplitIfs
import Handoff.Toml.Reader

/-! # What every document keeps to

In a document that was read every table binds each of its names once, and every integer fits into 64 bits
with a sign. Both are kept by each line, wherever it adds something.

* `Toml.Regular`, `Keyed`: what is kept, of a value and of the entries of a table.
* `Keyed.lookup_perm`: the order of entries does not count.
* `Node.keyed_modify`: what is done inside a table is done to regular entries.
* `Toml.regular_readValue`: a value that is read is regular.
* `Toml.keyed_parse`: so are the entries of a document.
-/

namespace Handoff

/-! ### Entries -/

theorem mem_of_lookup {β : Type} {es : List (String × β)} {k : String} {v : β} (h : es.lookup k = some v) :
    (k, v) ∈ es := by
  obtain ⟨l, r, rfl, -⟩ := List.lookup_eq_some_iff.1 h
  simp

theorem lookup_eq_none {β : Type} {es : List (String × β)} {k : String} (h : k ∉ es.map Prod.fst) :
    es.lookup k = none :=
  List.lookup_eq_none_iff.2 fun e he => by
    have hne : k ≠ e.1 := fun heq => h (heq ▸ List.mem_map_of_mem he)
    simpa using hne

/-- Entries under names of their own, whose values have a property. -/
structure Keyed {β : Type} (P : β → Prop) (es : List (String × β)) : Prop where
  nodup : (es.map Prod.fst).Nodup
  all : ∀ e ∈ es, P e.2

namespace Keyed

variable {β : Type} {P : β → Prop} {es : List (String × β)} {k : String} {v : β}

theorem nil : Keyed P [] := ⟨List.nodup_nil, by simp⟩

theorem value (h : Keyed P es) (hk : es.lookup k = some v) : P v := h.all (k, v) (mem_of_lookup hk)

theorem concat (h : Keyed P es) (hk : es.lookup k = none) (hv : P v) : Keyed P (es ++ [(k, v)]) := by
  refine ⟨?_, fun e he => ?_⟩
  · rw [List.map_append, List.nodup_append]
    refine ⟨h.nodup, by simp, ?_⟩
    rintro a ha b hb rfl
    obtain ⟨e, he, rfl⟩ := List.mem_map.1 ha
    have hne := List.lookup_eq_none_iff.1 hk e he
    simp only [List.map_cons, List.map_nil, List.mem_singleton] at hb
    simp [hb] at hne
  · rcases List.mem_append.1 he with he | he
    · exact h.all e he
    · rw [List.mem_singleton.1 he]
      exact hv

theorem filter (h : Keyed P es) (p : String × β → Bool) : Keyed P (es.filter p) :=
  ⟨h.nodup.sublist (List.filter_sublist.map _), fun e he => h.all e (List.mem_of_mem_filter he)⟩

theorem perm {es' : List (String × β)} (h : Keyed P es) (hp : es.Perm es') : Keyed P es' :=
  ⟨(hp.map _).nodup h.nodup, fun e he => h.all e (hp.mem_iff.2 he)⟩

theorem lookup_eq_some_iff (h : Keyed P es) : es.lookup k = some v ↔ (k, v) ∈ es := by
  constructor
  · exact mem_of_lookup
  · intro he
    have hne : es.lookup k ≠ none := fun hnone => by
      simpa using List.lookup_eq_none_iff.1 hnone (k, v) he
    obtain ⟨w, hw⟩ := Option.ne_none_iff_exists'.1 hne
    have heq := List.inj_on_of_nodup_map h.nodup he (mem_of_lookup hw) rfl
    rw [hw, (Prod.mk.inj heq).2]

/-- **The order of entries does not count** where one is looked up. -/
theorem lookup_perm {es' : List (String × β)} (h : Keyed P es) (hp : es.Perm es') (k : String) :
    es.lookup k = es'.lookup k :=
  Option.ext fun v => by
    rw [h.lookup_eq_some_iff, (h.perm hp).lookup_eq_some_iff, hp.mem_iff]

/-- Entries keep their names where a value is replaced. -/
theorem replace (h : Keyed P es) (hv : P v) : Keyed P (es.map fun e => if e.1 = k then (k, v) else e) := by
  refine ⟨?_, fun e he => ?_⟩
  · have hnames : (es.map fun e => if e.1 = k then (k, v) else e).map Prod.fst = es.map Prod.fst := by
      rw [List.map_map]
      refine List.map_congr_left fun e _ => ?_
      simp only [Function.comp_apply]
      split_ifs with hk
      · exact hk.symm
      · rfl
    rw [hnames]
    exact h.nodup
  · obtain ⟨e', he', rfl⟩ := List.mem_map.1 he
    split_ifs
    · exact hv
    · exact h.all e' he'

end Keyed

namespace Toml

/-- **A regular value**: its integers fit into 64 bits, and its tables bind each name once. -/
inductive Regular : Toml → Prop where
  | string (s : String) : Regular (.string s)
  | integer {n : Int} (h : -0x8000000000000000 ≤ n ∧ n < 0x8000000000000000) : Regular (.integer n)
  | float (x : Float) : Regular (.float x)
  | boolean (b : Bool) : Regular (.boolean b)
  | moment (text : String) : Regular (.moment text)
  | array {items : List Toml} (h : ∀ v ∈ items, Regular v) : Regular (.array items)
  | table {entries : List (String × Toml)} (hk : (entries.map Prod.fst).Nodup)
      (h : ∀ e ∈ entries, Regular e.2) : Regular (.table entries)

theorem Regular.items {items : List Toml} (h : Regular (.array items)) : ∀ v ∈ items, v.Regular := by
  cases h with
  | array h => exact h

theorem Regular.entries {entries : List (String × Toml)} (h : Regular (.table entries)) :
    Keyed Regular entries := by
  cases h with
  | table hk h => exact ⟨hk, h⟩

/-! ### Values under construction -/

/-- A value under construction that becomes a regular one. -/
inductive Node.Regular : Node → Prop where
  | leaf {v : Toml} (h : v.Regular) : Regular (.leaf v)
  | table {origin : Origin} {entries : Node.Entries} (hk : (entries.map Prod.fst).Nodup)
      (h : ∀ e ∈ entries, Regular e.2) : Regular (.table origin entries)
  | rows {tables : List Node.Entries} (hk : ∀ es ∈ tables, (es.map Prod.fst).Nodup)
      (h : ∀ es ∈ tables, ∀ e ∈ es, Regular e.2) : Regular (.rows tables)

namespace Node

/-- Regular entries under construction. -/
abbrev Kept (es : Entries) : Prop := Keyed Node.Regular es

theorem regular_table {origin : Origin} {es : Entries} (h : Kept es) : (table origin es).Regular :=
  .table h.nodup h.all

theorem regular_rows {ts : List Entries} (h : ∀ es ∈ ts, Kept es) : (rows ts).Regular :=
  .rows (fun es hes => (h es hes).nodup) fun es hes => (h es hes).all

theorem Regular.kept {origin : Origin} {es : Entries} (h : (Node.table origin es).Regular) : Kept es := by
  cases h with
  | table hk h => exact ⟨hk, h⟩

theorem Regular.kept_rows {ts : List Entries} (h : (Node.rows ts).Regular) : ∀ es ∈ ts, Kept es := by
  cases h with
  | rows hk h => exact fun es hes => ⟨hk es hes, h es hes⟩

theorem keyed_replace {es : Entries} {k : String} {n : Node} (h : Kept es) (hn : n.Regular) :
    Kept (replace k n es) := h.replace hn

/-- **What is done inside a table is done to regular entries.** -/
theorem keyed_modify {α : Type} {Q : α → Prop} {made : Origin} {f : Origin → Entries → Option (α × Entries)}
    (hf : ∀ {o es a es'}, Kept es → f o es = some (a, es') → Q a ∧ Kept es') {path : List String} {o : Origin}
    {es es' : Entries} {a : α} (h : Kept es) (hm : modify made f o path es = some (a, es')) : Q a ∧ Kept es' := by
  induction path generalizing o es es' a with
  | nil => exact hf h hm
  | cons k ks ih =>
    rw [modify] at hm
    split at hm
    · next hk =>
      obtain ⟨⟨b, inner⟩, hinner, heq⟩ := Option.map_eq_some_iff.1 hm
      cases heq
      obtain ⟨hq, hkept⟩ := ih .nil hinner
      exact ⟨hq, h.concat hk (regular_table hkept)⟩
    · cases hm
    · next origin inner hk =>
      split_ifs at hm
      obtain ⟨⟨b, inner'⟩, hinner, heq⟩ := Option.map_eq_some_iff.1 hm
      cases heq
      obtain ⟨hq, hkept⟩ := ih (h.value hk).kept hinner
      exact ⟨hq, keyed_replace h (regular_table hkept)⟩
    · next ts hk =>
      split at hm
      · cases hm
      · next t ht =>
        obtain ⟨⟨b, t'⟩, hinner, heq⟩ := Option.map_eq_some_iff.1 hm
        cases heq
        have hts := (h.value hk).kept_rows
        obtain ⟨hq, hkept⟩ := ih (hts t (List.mem_of_getLast? ht)) hinner
        refine ⟨hq, keyed_replace h (regular_rows fun es hes => ?_)⟩
        rcases List.mem_append.1 hes with hes | hes
        · exact hts es (List.dropLast_subset _ hes)
        · rw [List.mem_singleton.1 hes]
          exact hkept

theorem keyed_addPair {path : List String} {k : String} {v : Toml} {es es' : Entries} (h : Kept es)
    (hv : v.Regular) (ha : addPair path k v es = some es') : Kept es' := by
  obtain ⟨⟨⟨⟩, es''⟩, hm, rfl⟩ := Option.map_eq_some_iff.1 ha
  refine (keyed_modify (Q := fun _ => True) (fun {o es a es'} hkept hb => ⟨trivial, ?_⟩) h hm).2
  unfold bind at hb
  split_ifs at hb with hpoints hk
  cases hb
  exact hkept.concat (Option.not_isSome_iff_eq_none.1 hk) (.leaf hv)

theorem keyed_ofPairs {ps : List (List String × String × Toml)} {es es' : Entries} (h : Kept es)
    (hps : ∀ p ∈ ps, p.2.2.Regular) (ho : ofPairs ps es = some es') : Kept es' := by
  induction ps generalizing es with
  | nil => cases ho; exact h
  | cons p ps ih =>
    obtain ⟨path, k, v⟩ := p
    obtain ⟨es₁, hadd, ho⟩ := Option.bind_eq_some_iff.1 ho
    exact ih (keyed_addPair h (hps _ (List.mem_cons_self ..)) hadd)
      (fun p hp => hps p (List.mem_cons_of_mem _ hp)) ho

/-! ### Constructed values -/

theorem entriesToToml_eq (es : Entries) : entriesToToml es = es.map fun e => (e.1, e.2.toToml) := by
  induction es with
  | nil => rfl
  | cons e es ih => rw [entriesToToml, ih, entryToToml, List.map_cons]

theorem rowsToToml_eq (ts : List Entries) : rowsToToml ts = ts.map fun es => .table (entriesToToml es) := by
  induction ts with
  | nil => rfl
  | cons es ts ih => rw [rowsToToml, ih, List.map_cons]

theorem names_entriesToToml (es : Entries) : (entriesToToml es).map Prod.fst = es.map Prod.fst := by
  rw [entriesToToml_eq, List.map_map]
  rfl

/-- **A regular construction becomes a regular value.** -/
theorem Regular.toToml {n : Node} (h : n.Regular) : n.toToml.Regular := by
  induction h with
  | leaf h => rwa [Node.toToml]
  | @table origin es hk h ih =>
    rw [Node.toToml]
    refine .table (by rwa [names_entriesToToml]) fun e he => ?_
    rw [entriesToToml_eq] at he
    obtain ⟨e', he', rfl⟩ := List.mem_map.1 he
    exact ih e' he'
  | @rows ts hk h ih =>
    rw [Node.toToml, rowsToToml_eq]
    refine .array (List.forall_mem_map.2 fun es hes => ?_)
    refine .table (by rw [names_entriesToToml]; exact hk es hes) fun e he => ?_
    rw [entriesToToml_eq] at he
    obtain ⟨e', he', rfl⟩ := List.mem_map.1 he
    exact ih es hes e' he'

theorem keyed_entriesToToml {es : Entries} (h : Kept es) : Keyed Toml.Regular (entriesToToml es) := by
  refine ⟨by rw [names_entriesToToml]; exact h.nodup, fun e he => ?_⟩
  rw [entriesToToml_eq] at he
  obtain ⟨e', he', rfl⟩ := List.mem_map.1 he
  exact (h.all e' he').toToml

end Node

/-! ### Documents under construction -/

/-- A document under construction that becomes a regular one. -/
structure Draft.Regular (d : Draft) : Prop where
  root : Node.Kept d.root
  current : Node.Kept d.current

namespace Draft

variable {d d' : Draft}

theorem regular_empty : Draft.empty.Regular := ⟨.nil, .nil⟩

theorem Regular.close (h : d.Regular) {es : Node.Entries} (hc : d.close = some es) : Node.Kept es := by
  unfold Draft.close at hc
  split at hc
  · cases hc
    exact h.current
  · next p hp =>
    obtain ⟨⟨⟨⟩, es'⟩, hm, rfl⟩ := Option.map_eq_some_iff.1 hc
    refine (Node.keyed_modify (Q := fun _ => True) (fun {o es a es'} hkept hput => ⟨trivial, ?_⟩) h.root hm).2
    unfold put at hput
    split at hput
    · next hk =>
      cases hput
      refine hkept.concat hk ?_
      split_ifs
      · exact Node.regular_rows fun es hes => List.mem_singleton.1 hes ▸ h.current
      · exact Node.regular_table h.current
    · next ts hk =>
      split_ifs at hput
      cases hput
      refine Node.keyed_replace hkept (Node.regular_rows fun es hes => ?_)
      rcases List.mem_append.1 hes with hes | hes
      · exact (hkept.value hk).kept_rows es hes
      · rw [List.mem_singleton.1 hes]
        exact h.current
    · cases hput

theorem Regular.addPair (h : d.Regular) {path : List String} {k : String} {v : Toml} (hv : v.Regular)
    (ha : d.addPair path k v = some d') : d'.Regular := by
  obtain ⟨es, hes, rfl⟩ := Option.map_eq_some_iff.1 ha
  exact ⟨h.root, Node.keyed_addPair h.current hv hes⟩

theorem Regular.openTable (h : d.Regular) {path : List String} {k : String}
    (ho : d.openTable path k = some d') : d'.Regular := by
  obtain ⟨root, hroot, ho⟩ := Option.bind_eq_some_iff.1 ho
  obtain ⟨⟨inner, root'⟩, hm, ho⟩ := Option.bind_eq_some_iff.1 ho
  cases ho
  have htaken := Node.keyed_modify (Q := Node.Kept) (fun {o es a es'} hkept ht => ?_) (h.close hroot) hm
  · exact ⟨htaken.2, htaken.1⟩
  · unfold take at ht
    split at ht
    · cases ht
      exact ⟨.nil, hkept⟩
    · next inner hk =>
      cases ht
      exact ⟨(hkept.value hk).kept, hkept.filter _⟩
    · cases ht

theorem Regular.openRow (h : d.Regular) {path : List String} {k : String}
    (ho : d.openRow path k = some d') : d'.Regular := by
  obtain ⟨root, hroot, ho⟩ := Option.bind_eq_some_iff.1 ho
  obtain ⟨⟨⟨⟩, root'⟩, hm, ho⟩ := Option.bind_eq_some_iff.1 ho
  cases ho
  refine ⟨(Node.keyed_modify (Q := fun _ => True) (fun {o es a es'} hkept hr => ⟨trivial, ?_⟩)
    (h.close hroot) hm).2, .nil⟩
  unfold reserve at hr
  split at hr
  · next hk =>
    cases hr
    exact hkept.concat hk (Node.regular_rows (by simp))
  · cases hr
    exact hkept
  · cases hr

theorem Regular.finish (h : d.Regular) {es : List (String × Toml)} (hf : d.finish = some es) :
    Keyed Toml.Regular es := by
  obtain ⟨es', hc, rfl⟩ := Option.map_eq_some_iff.1 hf
  exact Node.keyed_entriesToToml (h.close hc)

end Draft

/-! ### Values that are read -/

theorem regular_integer? {n : Int} {v : Toml} (h : integer? n = some v) : v.Regular := by
  unfold integer? at h
  split_ifs at h with hn
  cases h
  exact .integer hn

theorem regular_readInteger {l r : List Char} {v : Toml} (h : readInteger l = some (v, r)) : v.Regular := by
  unfold readInteger at h
  split at h
  all_goals
    simp only [bind, Option.bind_eq_some_iff, pure] at h
    grind [regular_integer?]

theorem regular_readFloat {l r : List Char} {v : Toml} (h : readFloat l = some (v, r)) : v.Regular := by
  unfold readFloat at h
  dsimp only at h
  split at h
  · cases h
    exact .float _
  · cases h
    exact .float _
  · obtain ⟨⟨whole, r₁⟩, -, h⟩ := Option.bind_eq_some_iff.1 h
    obtain ⟨⟨⟨fraction, e⟩, r₂⟩, -, h⟩ := Option.bind_eq_some_iff.1 h
    obtain ⟨x, hx, h⟩ := Option.bind_eq_some_iff.1 h
    cases h
    unfold float? at hx
    dsimp only at hx
    split_ifs at hx <;> cases hx <;> exact .float _

theorem regular_readNumber {l r : List Char} {v : Toml} (h : readNumber l = some (v, r)) : v.Regular := by
  unfold readNumber at h
  rcases (Option.orElse_eq_some _ _ _).1 h with h | ⟨-, h⟩
  · unfold readMoment at h
    obtain ⟨r', -, h⟩ := Option.map_eq_some_iff.1 h
    cases h
    exact .moment _
  · rcases (Option.orElse_eq_some _ _ _).1 h with h | ⟨-, h⟩
    · exact regular_readFloat h
    · exact regular_readInteger h

/-- What is read with so much fuel is regular. -/
structure ReadsRegular (fuel : Nat) : Prop where
  value : ∀ {depth l v r}, readValue fuel depth l = some (v, r) → v.Regular
  items : ∀ {depth l vs r}, readItems fuel depth l = some (vs, r) → ∀ v ∈ vs, v.Regular
  pairs : ∀ {depth l ps r}, readPairs fuel depth l = some (ps, r) → ∀ p ∈ ps, p.2.2.Regular

section

variable {fuel depth : Nat} {l r : List Char}

theorem regular_readValue_succ (ih : ReadsRegular fuel) {v : Toml}
    (h : readValue (fuel + 1) depth l = some (v, r)) : v.Regular := by
  unfold readValue at h
  split at h
  · obtain ⟨x, -, heq⟩ := Option.map_eq_some_iff.1 h
    cases heq
    exact .string _
  · obtain ⟨x, -, heq⟩ := Option.map_eq_some_iff.1 h
    cases heq
    exact .string _
  · obtain ⟨x, -, heq⟩ := Option.map_eq_some_iff.1 h
    cases heq
    exact .boolean _
  · obtain ⟨x, -, heq⟩ := Option.map_eq_some_iff.1 h
    cases heq
    exact .boolean _
  · split at h
    · cases h
    · obtain ⟨⟨vs, r'⟩, hitems, heq⟩ := Option.map_eq_some_iff.1 h
      cases heq
      exact .array (ih.items hitems)
  · split at h
    · cases h
    · split at h
      · cases h
        exact .table List.nodup_nil (by simp)
      · obtain ⟨⟨ps, r'⟩, hpairs, h⟩ := Option.bind_eq_some_iff.1 h
        obtain ⟨es, hes, h⟩ := Option.bind_eq_some_iff.1 h
        cases h
        have hkept := Node.keyed_entriesToToml (Node.keyed_ofPairs .nil (ih.pairs hpairs) hes)
        exact .table hkept.nodup hkept.all
  · exact regular_readNumber h

theorem regular_readItems_succ (ih : ReadsRegular fuel) {vs : List Toml}
    (h : readItems (fuel + 1) depth l = some (vs, r)) : ∀ v ∈ vs, v.Regular := by
  rw [readItems] at h
  split at h
  · cases h
    simp
  · obtain ⟨⟨v, r₁⟩, hv, h⟩ := Option.bind_eq_some_iff.1 h
    dsimp only at h
    split at h
    · cases h
      exact List.forall_mem_singleton.2 (ih.value hv)
    · obtain ⟨⟨vs', r₂⟩, hvs, h⟩ := Option.bind_eq_some_iff.1 h
      cases h
      exact List.forall_mem_cons.2 ⟨ih.value hv, ih.items hvs⟩
    · cases h

theorem regular_readPairs_succ (ih : ReadsRegular fuel) {ps : List (List String × String × Toml)}
    (h : readPairs (fuel + 1) depth l = some (ps, r)) : ∀ p ∈ ps, p.2.2.Regular := by
  rw [readPairs] at h
  obtain ⟨⟨names, r₁⟩, -, h⟩ := Option.bind_eq_some_iff.1 h
  obtain ⟨⟨path, k⟩, -, h⟩ := Option.bind_eq_some_iff.1 h
  obtain ⟨r₂, -, h⟩ := Option.bind_eq_some_iff.1 h
  obtain ⟨⟨v, r₃⟩, hv, h⟩ := Option.bind_eq_some_iff.1 h
  dsimp only at h
  split at h
  · cases h
    exact List.forall_mem_singleton.2 (ih.value hv)
  · obtain ⟨⟨ps', r₄⟩, hps, h⟩ := Option.bind_eq_some_iff.1 h
    cases h
    exact List.forall_mem_cons.2 ⟨ih.value hv, ih.pairs hps⟩
  · cases h

theorem readsRegular (fuel : Nat) : ReadsRegular fuel := by
  induction fuel with
  | zero =>
    refine ⟨fun h => ?_, fun h => ?_, fun h => ?_⟩
    · rw [readValue] at h; cases h
    · rw [readItems] at h; cases h
    · rw [readPairs] at h; cases h
  | succ fuel ih =>
    exact ⟨regular_readValue_succ ih, regular_readItems_succ ih, regular_readPairs_succ ih⟩

/-- **A value that is read is regular.** -/
theorem regular_readValue {v : Toml} (h : readValue fuel depth l = some (v, r)) : v.Regular :=
  (readsRegular fuel).value h

/-! ### Documents that are read -/

/-- **Every line keeps the document regular.** -/
theorem regular_readLines {d d' : Draft} (hd : d.Regular) (h : readLines fuel d l = some d') : d'.Regular := by
  induction fuel generalizing d l with
  | zero => rw [readLines] at h; cases h
  | succ fuel ih =>
    rw [readLines] at h
    split at h
    · cases h
      exact hd
    · obtain ⟨⟨names, r₁⟩, -, h⟩ := Option.bind_eq_some_iff.1 h
      obtain ⟨⟨path, k⟩, -, h⟩ := Option.bind_eq_some_iff.1 h
      obtain ⟨r₂, -, h⟩ := Option.bind_eq_some_iff.1 h
      obtain ⟨r₃, -, h⟩ := Option.bind_eq_some_iff.1 h
      obtain ⟨d₁, hrow, h⟩ := Option.bind_eq_some_iff.1 h
      exact ih (hd.openRow hrow) h
    · obtain ⟨⟨names, r₁⟩, -, h⟩ := Option.bind_eq_some_iff.1 h
      obtain ⟨⟨path, k⟩, -, h⟩ := Option.bind_eq_some_iff.1 h
      obtain ⟨r₂, -, h⟩ := Option.bind_eq_some_iff.1 h
      obtain ⟨r₃, -, h⟩ := Option.bind_eq_some_iff.1 h
      obtain ⟨d₁, htable, h⟩ := Option.bind_eq_some_iff.1 h
      exact ih (hd.openTable htable) h
    · split_ifs at h
      · obtain ⟨r₁, -, h⟩ := Option.bind_eq_some_iff.1 h
        exact ih hd h
      · obtain ⟨⟨names, r₁⟩, -, h⟩ := Option.bind_eq_some_iff.1 h
        obtain ⟨⟨path, k⟩, -, h⟩ := Option.bind_eq_some_iff.1 h
        obtain ⟨r₂, -, h⟩ := Option.bind_eq_some_iff.1 h
        obtain ⟨⟨v, r₃⟩, hv, h⟩ := Option.bind_eq_some_iff.1 h
        obtain ⟨r₄, -, h⟩ := Option.bind_eq_some_iff.1 h
        obtain ⟨d₁, hpair, h⟩ := Option.bind_eq_some_iff.1 h
        exact ih (hd.addPair (regular_readValue hv) hpair) h

end

/-- **A document that is read binds each name once, to regular values.** -/
theorem keyed_parse {s : String} {entries : List (String × Toml)} (h : parse? s = some entries) :
    Keyed Regular entries := by
  obtain ⟨d, hd, hfinish⟩ := Option.bind_eq_some_iff.1 h
  exact (regular_readLines Draft.regular_empty hd).finish hfinish

end Toml

end Handoff
