import Handoff.Proofs.Pool.Turn

/-! # Workers that go down

A job can end with what takes its worker down. The worker that goes down as the last one takes the queue
along: it disposes of the queued jobs, one after the other, and the pool takes no job any more. So in any
world, harmless or not, what one pool goes through in a move is a turn or the fall of one of its workers.

* `Place.disposing`, `Place.isLost`: what a worker is at that has tasks to dispose of, and that takes no
  more jobs.
* `Fall`: what the fall of a worker does to the view of its pool, and what it needs.
* `Happens.turn_or_fall`: every move is a turn or a fall.
* `Run.view_induction_of_falls`: what turns and falls keep holds of a pool after every run.
-/

namespace Handoff.Pool

variable {ν : Type}

/-- What a worker is at that goes down and has these tasks to dispose of. -/
def Place.disposing : List Nat → Place
  | [] => .gone
  | t :: others => .falling t others

/-- Whether a worker takes no more jobs. -/
def Place.isLost : Place → Bool
  | gone => true
  | falling _ _ => true
  | _ => false

@[simp] theorem Place.isLost_disposing (ts : List Nat) : (disposing ts).isLost = true := by
  cases ts <;> rfl

@[simp] theorem Worker.isLost_place (x : Worker ν) : x.place.isLost = x.isLost := by cases x <;> rfl

@[simp] theorem World.place_fallingWith (w : World ν) (ts : List Nat) :
    (w.fallingWith ts).place = .disposing ts := by cases ts <;> rfl

/-- Whether no worker of a pool takes jobs any more. -/
def View.IsLost (v : View) : Prop := ∀ x ∈ v.places, x.isLost = true

theorem isLost_iff {q : WorkerPool ν} : q.isLost = true ↔ q.view.IsLost := by
  simp [WorkerPool.isLost, View.IsLost, WorkerPool.view, List.all_eq_true]

/-- **What the fall of a worker does to the view of pool `p`**, and what it needs. -/
inductive Fall (p : Nat) : Event ν → View → View → Prop where
  /-- Another worker still takes jobs. -/
  | fell {i t v} (hi : v.places[i]? = some (.busy t)) :
      Fall p (.fell p i t) v { v with places := v.places.set i .gone }
  /-- The last worker that takes jobs goes down, and takes the queue along. -/
  | last {i t v} (hi : v.places[i]? = some (.busy t))
      (hl : ∀ x ∈ v.places.set i .gone, x.isLost = true) :
      Fall p (.fell p i t) v
        { v with queue := [], places := v.places.set i (.disposing v.queue) }
  /-- A worker that goes down has disposed of a task. -/
  | lost {i t others v} (hi : v.places[i]? = some (.falling t others)) :
      Fall p (.lost p i t) v { v with places := v.places.set i (.disposing others) }

namespace World

/-- What a pool goes through in a move that changes another one. -/
theorem turn_or_fall_setPool {w : World ν} {p i : Nat} {e : Event ν} {x x' q : WorkerPool ν}
    (hx : w.pools[i]? = some x) (he : e.pool? = some i) (hf : Fall i e x.view x'.view)
    (hq : w.pools[p]? = some q) :
    ∃ q', (w.setPool i x').pools[p]? = some q' ∧ (Turn p e q.view q'.view ∨ Fall p e q.view q'.view) := by
  rw [getElem?_setPool hx]
  split
  · next hi =>
    subst hi
    obtain rfl := Option.some.inj (hx.symm.trans hq)
    exact ⟨x', rfl, .inr hf⟩
  · next hi => exact ⟨q, hq, .inl (.elsewhere he hi)⟩

/-- What a pool goes through when a worker begins to go down. -/
theorem turn_or_fall_goDown {w : World ν} {i k t : Nat} {x : WorkerPool ν} {f : Program ν}
    (hx : w.pools[i]? = some x) (hk : x.workers[k]? = some (.busy t f)) {p : Nat} {q : WorkerPool ν}
    (hq : w.pools[p]? = some q) :
    ∃ q', (w.goDown i k t x).pools[p]? = some q' ∧
      (Turn p (.fell i k t : Event ν) q.view q'.view ∨ Fall p (.fell i k t : Event ν) q.view q'.view) := by
  have hx' : (w.setSlot t .lost).pools[i]? = some x := hx
  have hset : ∀ y : Worker ν, (x.setWorker k y).view.places = x.view.places.set k y.place := fun y => by
    rw [view_setWorker]
  simp only [goDown]
  split
  · next hl =>
    refine turn_or_fall_setPool hx' rfl ?_ hq
    have hlost : ∀ y ∈ x.view.places.set k .gone, y.isLost = true := by
      have := isLost_iff.1 hl
      rwa [View.IsLost, hset] at this
    have := Fall.last (ν := ν) (p := i) (view_places hk) hlost
    simpa [WorkerPool.view, WorkerPool.setWorker, List.map_set, List.set_set] using this
  · refine turn_or_fall_setPool hx' rfl ?_ hq
    rw [view_setWorker]
    exact .fell (view_places hk)

/-- **Every move is a turn of each pool, or the fall of one of its workers.** -/
theorem Happens.turn_or_fall {w v : World ν} {e : Event ν} (he : w.Happens e v) {p : Nat}
    {q : WorkerPool ν} (hq : w.pools[p]? = some q) :
    ∃ q', v.pools[p]? = some q' ∧ (Turn p e q.view q'.view ∨ Fall p e q.view q'.view) := by
  have up : (∀ j i t, e ≠ .fell j i t) → (∀ j i t, e ≠ .lost j i t) →
      ∃ q', v.pools[p]? = some q' ∧ (Turn p e q.view q'.view ∨ Fall p e q.view q'.view) := by
    intro hf hl
    obtain ⟨q', hq', ht⟩ := he.turn_of_up hf hl hq
    exact ⟨q', hq', .inl ht⟩
  cases he with
  | did | took | delivered | counted | left => exact up (by simp) (by simp)
  | fell hx hi => exact turn_or_fall_goDown hx hi hq
  | lost hx hi =>
    rw [lose, setWorker_eq_setPool (w := w.setSlot _ _) _ hx]
    refine turn_or_fall_setPool (w := w.setSlot _ _) hx rfl ?_ hq
    rw [view_setWorker, place_fallingWith]
    exact .lost (view_places hi)

/-- **What turns and falls keep holds of a pool after every run.** -/
theorem Run.view_induction_of_falls {w v : World ν} {h : List (Event ν)} (hr : w.Run h v) {p : Nat}
    {q₀ : WorkerPool ν} (hq₀ : w.pools[p]? = some q₀) {P : List (Event ν) → View → Prop}
    (start : P [] q₀.view) (turn : ∀ k e x y, P k x → Turn p e x y → P (k ++ [e]) y)
    (fall : ∀ k e x y, P k x → Fall p e x y → P (k ++ [e]) y) :
    ∃ q, v.pools[p]? = some q ∧ P h q.view := by
  induction hr with
  | refl => exact ⟨q₀, hq₀, start⟩
  | tail hr he ih =>
    obtain ⟨q, hq, hP⟩ := ih
    obtain ⟨q', hq', ht | hf⟩ := he.turn_or_fall hq
    · exact ⟨q', hq', turn _ _ _ _ hP ht⟩
    · exact ⟨q', hq', fall _ _ _ _ hP hf⟩

end World

end Handoff.Pool
