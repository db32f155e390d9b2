import Handoff.Demo.Stream
import Handoff.Proofs.Config.Acceptance
import Handoff.Proofs.Stream.Range

/-! # Which accepted configurations can be run

Whatever an accepted configuration holds under a field, the field takes. For the stream this leaves capacities that
no channel can have: the document's integers reach up to 63 bits, the largest capacity has 61. Up to that one the
range is published and driven to its end.

* `Config.Describes.takes`, `Config.Describes.regular`: what fields hold.
* `Config.stream_range`: what an accepted configuration holds for the stream.
* `Config.stream_runs_iff`: exactly the capacities up to the largest can be run, under any interleaving.
-/

namespace Handoff.Config

/-! ### What fields hold -/

section Held

variable {entries : List (String × Toml)} {c : Config} {name field : String} {kind : Kind} {v : Toml}

/-- **Every default fits its own field.** -/
theorem takes_default (h : (field, kind) ∈ fieldsOf name) (hv : default.held name field = some v) :
    kind.Takes v := by
  have hname := mem_declared (List.ne_nil_of_mem h)
  have hdefaults : ∀ e ∈ declared, ∀ f ∈ e.2, ∀ w, default.held e.1 f.1 = some w → f.2.Takes w := by
    simp only [declared, List.forall_mem_cons, List.not_mem_nil, false_implies, implies_true, and_true]
    refine ⟨?log, ⟨?head, ?tail, ?delay⟩, ⟨?outer, ?inner, ?limit⟩, ⟨?count, ?capacity⟩, ?name, ?label, ?counter⟩ <;>
      intro w hw <;> cases hw
    case log | head | tail | name | label => exact ⟨_, rfl⟩
    case counter => exact ⟨0, rfl⟩
    case delay => exact ⟨50, by decide, rfl⟩
    case inner => exact ⟨1, by decide, rfl⟩
    case limit => exact ⟨5000, by decide, rfl⟩
    case count => exact ⟨10, by decide, rfl⟩
    case capacity => exact ⟨16, by decide, rfl⟩
  exact hdefaults _ hname _ h v hv

theorem regular_default (hv : default.held name field = some v) : v.Regular := by
  unfold held at hv
  split at hv
  · unfold LogConfig.held at hv
    split at hv <;> cases hv
    exact .string _
  · unfold DeferredConfig.held at hv
    split at hv <;> cases hv
    · exact .string _
    · exact .string _
    · exact .integer (by decide)
  · unfold PoolConfig.held at hv
    split at hv <;> cases hv
    · exact .integer (by decide)
    · exact .integer (by decide)
  · unfold StreamConfig.held at hv
    split at hv <;> cases hv
    · exact .integer (by decide)
    · exact .integer (by decide)
  · unfold ManagedConfig.held at hv
    split at hv <;> cases hv
    · exact .string _
    · exact .string _
    · exact .integer (by decide)
  · cases hv

theorem takes_given (hfits : Fits entries) (h : (field, kind) ∈ fieldsOf name)
    (hv : given entries name field = some v) : kind.Takes v := by
  obtain ⟨sec, hsec, hgiven⟩ := Option.bind_eq_some_iff.1 hv
  obtain ⟨es, hes, hlookup⟩ := Option.bind_eq_some_iff.1 hgiven
  have hsection : IsSection name sec := hfits (name, sec) (mem_of_lookup hsec)
  obtain ⟨es', hes', htaken⟩ := (isSection_iff (mem_declared (List.ne_nil_of_mem h))).1 hsection
  cases hes.symm.trans hes'
  exact (takenIn_iff (nodup_fieldsOf name) h).1 (htaken (field, v) (mem_of_lookup hlookup))

theorem regular_given (hkeyed : Keyed Toml.Regular entries) (hv : given entries name field = some v) :
    v.Regular := by
  obtain ⟨sec, hsec, hgiven⟩ := Option.bind_eq_some_iff.1 hv
  obtain ⟨es, hes, hlookup⟩ := Option.bind_eq_some_iff.1 hgiven
  exact (keyed_entriesOf? (hkeyed.value hsec) (nodup_fieldsOf name) hes).value hlookup

/-- **Whatever a field holds, it takes.** -/
theorem Describes.takes (hc : Describes entries c) (hfits : Fits entries) (h : (field, kind) ∈ fieldsOf name)
    (hv : c.held name field = some v) : kind.Takes v := by
  rw [hc name field, Option.or_eq_some_iff] at hv
  rcases hv with hgiven | ⟨-, hdefault⟩
  · exact takes_given hfits h hgiven
  · exact takes_default h hdefault

/-- Integers fit into 64 bits with a sign, also where the field takes greater ones. -/
theorem Describes.regular (hc : Describes entries c) (hkeyed : Keyed Toml.Regular entries)
    (hv : c.held name field = some v) : v.Regular := by
  rw [hc name field, Option.or_eq_some_iff] at hv
  rcases hv with hgiven | ⟨-, hdefault⟩
  · exact regular_given hkeyed hgiven
  · exact regular_default hdefault

end Held

/-! ### What an accepted configuration holds for the stream -/

/-- What is known of a configuration that was accepted. -/
theorem exists_of_ofText {s : String} {c : Config} (h : ofText s = .ok c) :
    ∃ entries, Keyed Toml.Regular entries ∧ Fits entries ∧ Describes entries c ∧ ∀ r : Rule, r.Kept c := by
  rcases hs : Toml.parse? s with - | entries
  · rw [ofText, hs] at h
    cases h
  · have hkeyed := Toml.keyed_parse hs
    rw [ofText_eq hs, ofEntries_eq_ok_iff hkeyed] at h
    exact ⟨entries, hkeyed, h⟩

/-- **The range of an accepted stream**: more than fits into a channel. -/
theorem stream_range {s : String} {c : Config} (h : ofText s = .ok c) :
    c.stream.count < 0x100000000 ∧ 1 ≤ c.stream.capacity ∧ c.stream.capacity < 0x8000000000000000 := by
  obtain ⟨entries, hkeyed, hfits, hc, hkept⟩ := exists_of_ofText h
  have hcount : c.held "stream" "count" = some (.integer c.stream.count) := rfl
  have hcapacity : c.held "stream" "capacity" = some (.integer c.stream.capacity) := rfl
  have hfield : ("count", Kind.word 0x100000000) ∈ fieldsOf "stream" := by decide
  obtain ⟨n, hn, heq⟩ := hc.takes hfits hfield hcount
  refine ⟨?_, hkept .capacity, ?_⟩
  · have hsame : c.stream.count = n := by
      simpa only [Toml.integer.injEq, Int.ofNat_inj] using heq
    omega
  · cases hc.regular hkeyed hcapacity with
    | integer hrange => omega

/-! ### Running an accepted configuration -/

/-- **Exactly the capacities up to the largest can be run.** Every accepted configuration has a count of 32 bits and
a capacity of 63 bits that is not zero.
* A channel of this capacity opens, and the range is published, just if the capacity is not beyond the largest.
* Under any interleaving the published stream is driven in a bounded number of steps, never stuck, until the
  subscriber was told the whole range and its completion.
* So the demonstration comes to its end for these capacities, and breaks off for the others. -/
theorem stream_runs_iff {s : String} {c : Config} (h : ofText s = .ok c) :
    (c.stream.count < 0x100000000 ∧ 1 ≤ c.stream.capacity ∧ c.stream.capacity < 0x8000000000000000) ∧
    (∀ α : Type, (∃ ch, Channel.open? α c.stream.capacity = some ch) ↔
      c.stream.capacity ≤ Channel.maxCapacity) ∧
    ((∃ x, publishRange? c.stream.count c.stream.capacity 0 false = some x) ↔
      c.stream.capacity ≤ Channel.maxCapacity) ∧
    (∀ x, publishRange? c.stream.count c.stream.capacity 0 false = some x → ∀ n l y, x.Run n l y →
      n ≤ 2 * c.stream.count + 4 ∧ ((∃ z, y.Step z) ∨ y.Served c.stream.count)) ∧
    (Demo.streamOutput c.stream).status = if c.stream.capacity ≤ Channel.maxCapacity then 0 else 101 := by
  have hpublishes : (∃ x, publishRange? c.stream.count c.stream.capacity 0 false = some x) ↔
      c.stream.capacity ≤ Channel.maxCapacity := Exchange.exists_publishRange?_iff
  refine ⟨stream_range h, fun α => Channel.exists_open?_iff, hpublishes,
    fun x hx n l y hr => Exchange.served_of_run hx hr, ?_⟩
  unfold Demo.streamOutput
  rcases hx : publishRange? c.stream.count c.stream.capacity 0 false with - | x
  · rw [if_neg fun hle => ?_]
    · rfl
    · obtain ⟨x, hx'⟩ := hpublishes.2 hle
      cases hx.symm.trans hx'
  · rw [if_pos (hpublishes.1 ⟨x, hx⟩)]
    obtain ⟨n, l, hr, hend⟩ := Exchange.exists_run x .refl
    have hserved := (Exchange.served_of_run hx hr).2.resolve_left hend
    simp only [hserved.consumer]
    rfl

/-- Three numbers through a channel with room for one signal. -/
theorem stream_runs_iff_narrow :
    ∃ c x, ofText "[stream]\ncount = 3\ncapacity = 1\n" = .ok c ∧
      publishRange? c.stream.count c.stream.capacity 0 false = some x ∧
      ∃ n l y, x.Run n l y ∧ n ≤ 10 ∧ y.Served 3 := by
  have hok : ofText "[stream]\ncount = 3\ncapacity = 1\n" = .ok { stream := { count := 3, capacity := 1 } } := by
    cbv
  obtain ⟨-, -, hpublishes, hruns, -⟩ := stream_runs_iff hok
  obtain ⟨x, hx⟩ := hpublishes.2 (by decide)
  obtain ⟨n, l, hr, hend⟩ := Exchange.exists_run x .refl
  obtain ⟨hn, hnext⟩ := hruns x hx n l _ hr
  exact ⟨_, x, hok, hx, n, l, _, hr, hn, hnext.resolve_left hend⟩

/-- **An accepted capacity that no channel can have**, the least one. -/
theorem accepted_stream_breaks_off :
    ∃ c, ofText "[stream]\ncapacity = 2305843009213693952\n" = .ok c ∧
      Channel.open? Nat c.stream.capacity = none ∧ publishRange? c.stream.count c.stream.capacity 0 false = none := by
  have hok : ofText "[stream]\ncapacity = 2305843009213693952\n" =
      .ok { stream := { capacity := 2305843009213693952 } } := by cbv
  have hopen : Channel.open? Nat 2305843009213693952 = none := if_neg (by decide)
  exact ⟨_, hok, hopen, by simp only [publishRange?, hopen, Option.map_none]⟩

end Handoff.Config
