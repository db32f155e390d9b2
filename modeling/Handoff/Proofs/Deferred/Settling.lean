import Mathlib.Logic.Relation
import Handoff.Proofs.Deferred.Weight

/-! # The tasks come to rest

Every look and every return of what was put off lowers the weight, so that the executor comes to rest at
each time; a jump of the clock to the next timer lowers it too. Hence the bounds that the executor sets
itself are never reached.

* `Executor.Works`: some moves without the clock.
* `Executor.AtRest`: nothing is left to do at this time.
* `Executor.wait_spec`: the executor is at rest after a wait.
* `Executor.get_spec`: a result that is waited for comes.
-/

namespace Handoff.Deferred.Executor

open Relation (ReflTransGen)

variable {ν : Type} {book : List (Entry ν)} {x y z : Executor ν} {i : Nat}

theorem Account.moves (h : InOrder book x) (hxy : ReflTransGen Move x y) : InOrder book y := by
  induction hxy with
  | refl => exact h
  | tail _ hmove ih => exact ih.move hmove

theorem Grows.of_moves (hxy : ReflTransGen Move x y) : Grows x y := by
  induction hxy with
  | refl => exact .refl x
  | tail _ hmove ih => exact ih.trans hmove.grows

/-! ### Work at one time -/

/-- **Work without the clock.** -/
structure Works (x y : Executor ν) : Prop where
  moves : ReflTransGen Move x y
  now : y.now = x.now
  weight : y.weight ≤ x.weight

theorem Works.refl (x : Executor ν) : Works x x := ⟨.refl, rfl, Nat.le_refl _⟩

theorem Works.trans (h : Works x y) (h' : Works y z) : Works x z :=
  ⟨h.moves.trans h'.moves, h'.now.trans h.now, Nat.le_trans h'.weight h.weight⟩

theorem look_now (x : Executor ν) (i : Nat) : (x.look i).now = x.now := by
  have hfinish : ∀ (s : Stage ν) o, x.stage? i = some s → (x.finish i o).now = x.now := by
    intro s o hs
    rw [(finished_finish o hs).same]
  have hgather : ∀ (s : Stage ν) g, x.stage? i = some s → (x.gather i g).now = x.now := by
    intro s g hs
    rcases gather_cases x i g with ⟨o, -, hy⟩ | ⟨-, hy⟩
    · rw [hy]; exact hfinish s o hs
    · rw [hy.same]
  rcases hs : x.stage? i with _ | (m | g | r | ⟨o, t⟩)
  · rw [look_none hs]
  · rw [look_pending hs]
    rcases m.poll x.result?.outcome with _ | ⟨delay, r⟩ | ⟨is, pack⟩ | o
    · rfl
    · rfl
    · exact hgather _ _ hs
    · exact hfinish _ o hs
  · rw [look_gathering hs]; exact hgather _ g hs
  · rw [look_sleeping hs]; exact hfinish _ _ hs
  · rw [look_done hs]

theorem works_step {r : List Nat} (h : InOrder book x) (hr : x.ready = i :: r) :
    Works x x.step ∧ x.step.weight < x.weight := by
  have hstep : x.step = { x with ready := r }.look i := by rw [step, hr]
  have hpop : Account book (i :: r) x.postponed { x with ready := r } := by
    have := h.of_same (y := { x with ready := r }) rfl rfl rfl
    rwa [hr] at this
  have hlook := Account.weight_look (x := { x with ready := r }) hpop
  have hweight : ({ x with ready := r } : Executor ν).weight + 1 = x.weight := by
    simp only [weight, hr, List.length_cons]
    omega
  rw [hstep]
  exact ⟨⟨.single (.look hr), look_now _ i, by omega⟩, by omega⟩

theorem works_turn (n : Nat) (h : InOrder book x) :
    Works x (x.turn n) ∧ (0 < n → x.ready ≠ [] → (x.turn n).weight < x.weight) := by
  induction n generalizing x with
  | zero => exact ⟨.refl x, fun h0 => absurd h0 (Nat.lt_irrefl 0)⟩
  | succ n ih =>
    rw [turn]
    rcases hr : x.ready with _ | ⟨i, r⟩
    · exact ⟨.refl x, fun _ hne => absurd rfl hne⟩
    · obtain ⟨hstep, hlt⟩ := works_step h hr
      obtain ⟨hturn, -⟩ := ih (h.moves hstep.moves)
      exact ⟨hstep.trans hturn, fun _ _ => Nat.lt_of_le_of_lt hturn.weight hlt⟩

theorem resumeAll_now (x : Executor ν) : x.resumeAll.now = x.now := by
  have hfold : ∀ (l : List Nat) (y : Executor ν), (l.foldl resume y).now = y.now := by
    intro l
    induction l with
    | nil => exact fun y => rfl
    | cons i l ih =>
      intro y
      rw [List.foldl_cons, ih]
      rcases resume_cases y i with ⟨g, -, hy⟩ | ⟨-, hy⟩
      · rw [hy, wake_eq]; rfl
      · rw [hy]
  exact hfold x.postponed _

/-- **A round works**, as long as there is anything to do without the clock. -/
theorem works_round (h : InOrder book x) :
    Works x x.round ∧ (x.isIdle = false → x.round.weight < x.weight) := by
  obtain ⟨hturn, hlt⟩ := works_turn turnLength h
  have hresume := weight_resumeAll (x.turn turnLength)
  have hround : Works (x.turn turnLength) x.round :=
    ⟨.single .resume, resumeAll_now _, by rw [round]; omega⟩
  refine ⟨hturn.trans hround, fun hbusy => ?_⟩
  by_cases hready : x.ready = []
  · -- nothing is ready, so something was put off
    have hsame : x.turn turnLength = x := by
      rw [turnLength, turn, hready]
      rfl
    have hpostponed : x.postponed ≠ [] := by
      rintro hnone
      simp [isIdle, hready, hnone] at hbusy
    have := List.length_pos_iff.2 hpostponed
    rw [round]
    rw [hsame] at hresume ⊢
    omega
  · exact Nat.lt_of_le_of_lt hround.weight (hlt (by decide) hready)

theorem works_rounds (n : Nat) (h : InOrder book x) (hn : x.weight ≤ n) :
    Works x (x.rounds n) ∧ (x.rounds n).isIdle = true := by
  induction n generalizing x with
  | zero =>
    have hzero : x.weight = 0 := Nat.le_zero.1 hn
    have hready : x.ready = [] := List.length_eq_zero_iff.1 (by rw [weight] at hzero; omega)
    have hpostponed : x.postponed = [] := List.length_eq_zero_iff.1 (by rw [weight] at hzero; omega)
    exact ⟨.refl x, by simp [rounds, isIdle, hready, hpostponed]⟩
  | succ n ih =>
    rw [rounds]
    split_ifs with hidle
    · exact ⟨.refl x, hidle⟩
    · obtain ⟨hround, hlt⟩ := works_round h
      have hless := hlt (by simpa using hidle)
      obtain ⟨hrest, hend⟩ := ih (h.moves hround.moves) (by omega)
      exact ⟨hround.trans hrest, hend⟩

/-- **Settling comes to its end.** -/
theorem works_settle (h : InOrder book x) : Works x x.settle ∧ x.settle.isIdle = true :=
  works_rounds x.weight h (Nat.le_refl _)

theorem settle_of_idle (h : x.isIdle = true) : x.settle = x := by
  rw [settle]
  rcases x.weight with _ | n
  · rfl
  · rw [rounds, if_pos h]

/-! ### Time -/

theorem nextDue?_eq_none (h : x.nextDue? = none) : x.timers = [] := by
  rw [nextDue?, List.min?_eq_none_iff, List.map_eq_nil_iff] at h
  exact h

theorem nextDue?_eq_some {due : Nat} (h : x.nextDue? = some due) :
    (∃ tm ∈ x.timers, tm.due = due) ∧ ∀ tm ∈ x.timers, due ≤ tm.due := by
  rw [nextDue?, List.min?_eq_some_iff] at h
  obtain ⟨hmem, hle⟩ := h
  exact ⟨List.mem_map.1 hmem, fun tm htm => hle _ (List.mem_map_of_mem htm)⟩

/-- **Nothing is left to do at this time.** -/
structure AtRest (x : Executor ν) : Prop where
  idle : x.isIdle = true
  timers : ∀ tm ∈ x.timers, x.now < tm.due

/-- The clock that passes no timer is all that changes. -/
theorem jump_of_lt {t : Nat} (h : ∀ tm ∈ x.timers, t < tm.due) : x.jump t = { x with now := t } := by
  have hnone : x.timers.filter (·.due ≤ t) = [] := by
    rw [List.filter_eq_nil_iff]
    intro tm htm
    simpa using h tm htm
  have hall : x.timers.filter (t < ·.due) = x.timers := by
    rw [List.filter_eq_self]
    intro tm htm
    simpa using h tm htm
  rw [jump, hnone, hall, List.map_nil, List.append_nil]

theorem InOrder.now_le (h : InOrder book x) {tm : Timer} (htm : tm ∈ x.timers) : x.now ≤ tm.due :=
  (h.timers tm htm).2.1

/-- Where a timer expires next, a jump to it lowers the weight. -/
theorem weight_jump_lt {due : Nat} (h : x.nextDue? = some due) : (x.jump due).weight < x.weight := by
  obtain ⟨⟨tm, htm, rfl⟩, -⟩ := nextDue?_eq_some h
  have hweight := weight_jump x tm.due
  have hpos : 0 < (x.timers.filter (·.due ≤ tm.due)).length :=
    List.length_pos_of_mem (List.mem_filter.2 ⟨htm, by simp⟩)
  omega

/-- The jump to the next timer is a move. -/
theorem InOrder.move_jump (h : InOrder book x) (hidle : x.isIdle = true) {due : Nat}
    (hnext : x.nextDue? = some due) : Move x (x.jump due) := by
  obtain ⟨⟨tm, htm, rfl⟩, hleast⟩ := nextDue?_eq_some hnext
  exact .jump hidle (h.now_le htm) hleast

/-- **Time passes**, and the executor is at rest afterwards. Its weight is lower if a timer has expired. -/
theorem passUntil_spec {t : Nat} (n : Nat) (h : InOrder book x) (hnow : x.now ≤ t) (hn : x.weight < n) :
    let y := passUntil t n x
    ReflTransGen Move x y ∧ y.now = t ∧ AtRest y ∧ y.weight ≤ x.weight ∧
      ((∃ tm ∈ x.settle.timers, tm.due ≤ t) → y.weight < x.weight) := by
  induction n generalizing x with
  | zero => exact absurd hn (Nat.not_lt_zero _)
  | succ n ih =>
    obtain ⟨hworks, hidle⟩ := works_settle h
    have hsettled := h.moves hworks.moves
    -- the clock goes to the end without passing a timer
    have hend : (∀ tm ∈ x.settle.timers, t < tm.due) →
        let y : Executor ν := { x.settle with now := t }
        ReflTransGen Move x y ∧ y.now = t ∧ AtRest y ∧ y.weight ≤ x.weight ∧
          ((∃ tm ∈ x.settle.timers, tm.due ≤ t) → y.weight < x.weight) := by
      intro hlate
      have hjump : Move x.settle (x.settle.jump t) :=
        .jump hidle (by rw [hworks.now]; exact hnow) fun tm htm => Nat.le_of_lt (hlate tm htm)
      rw [jump_of_lt hlate] at hjump
      exact ⟨hworks.moves.tail hjump, rfl, ⟨hidle, hlate⟩, hworks.weight,
        fun ⟨tm, htm, hdue⟩ => absurd (hlate tm htm) (Nat.not_lt.2 hdue)⟩
    rw [passUntil]
    rcases hnext : x.settle.nextDue? with _ | due
    · have hnone := nextDue?_eq_none hnext
      exact hend (by simp [hnone])
    · obtain ⟨-, hleast⟩ := nextDue?_eq_some hnext
      dsimp only
      split_ifs with hdue
      · have hjump := hsettled.move_jump hidle hnext
        have hless : (x.settle.jump due).weight < x.weight :=
          Nat.lt_of_lt_of_le (weight_jump_lt hnext) hworks.weight
        obtain ⟨hmoves, hy, hrest, hle, -⟩ := ih (hsettled.move hjump) hdue (by omega)
        exact ⟨(hworks.moves.tail hjump).trans hmoves, hy, hrest, by omega, fun _ => by omega⟩
      · exact hend fun tm' htm' => Nat.lt_of_lt_of_le (Nat.not_le.1 hdue) (hleast tm' htm')

/-- **After a wait the executor is at rest**, and its clock has advanced by the wait. -/
theorem wait_spec (span : Nat) (h : InOrder book x) :
    ReflTransGen Move x (x.wait span) ∧ (x.wait span).now = x.now + min span longestSleep ∧
      AtRest (x.wait span) ∧ (x.wait span).weight ≤ x.weight ∧
      ((∃ tm ∈ x.settle.timers, tm.due ≤ x.now + min span longestSleep) →
        (x.wait span).weight < x.weight) := by
  obtain ⟨hmoves, hnow, hrest, hle, hlt⟩ := passUntil_spec (t := x.now + min span longestSleep)
    (x.weight + 1) h (Nat.le_add_right _ _) (Nat.lt_succ_self _)
  exact ⟨hmoves.tail (.credit _), hnow, ⟨hrest.idle, hrest.timers⟩, hle, hlt⟩

/-! ### What is not done -/

/-- **As long as a task is not done**, there is a timer to wait for. -/
theorem exists_timer (h : InOrder book x) (hidle : x.isIdle = true) (k : Nat) {s : Stage ν}
    (hs : x.stage? k = some s) (hy : s.yield? = none) : ∃ tm, tm ∈ x.timers := by
  simp only [isIdle, Bool.and_eq_true, List.isEmpty_iff] at hidle
  induction k using Nat.strongRecOn generalizing s with
  | _ k ih =>
    obtain ⟨b, hb⟩ := h.exists_entry hs
    have hfits := h.fits k b s hb hs
    rw [hidle.1, hidle.2] at hfits
    by_cases hsleeps : ∃ r, s = .sleeping r
    · obtain ⟨r, rfl⟩ := hsleeps
      cases hfits with
      | sleeping _ _ _ hdue =>
        obtain ⟨-, htm⟩ := hdue.resolve_left fun hawake => List.not_mem_nil hawake.1
        exact ⟨_, htm⟩
    · have hnone := hfits.seen_eq_none hy fun r hr => hsleeps ⟨r, hr⟩
      -- some input is not there, and it was made before
      have hinput : ∃ j ∈ b.maker.inputs, x.result?.outcome j = none := by
        by_contra hall
        simp only [not_exists, not_and] at hall
        exact Maker.seen_ne_none hall hnone
      obtain ⟨j, hj, hres⟩ := hinput
      have hjk := (h.inputs k b hb).2 j hj
      obtain ⟨s', hs'⟩ := exists_stage? (Nat.lt_trans hjk (lt_of_stage? hs))
      rw [Yields.outcome, Option.map_eq_none_iff, result?_of_stage? hs'] at hres
      exact ih j hjk hs' hres

/-- **At rest, what is not done comes later.** Here `res` is what the tasks come to in the end. -/
theorem AtRest.now_lt (hrest : AtRest x) (h : InOrder book x) {res : Yields ν}
    (hkeep : ∀ j r, x.result? j = some r → res j = some r)
    (hmeans : ∀ k b o t, book[k]? = some b → res k = some (o, t) →
      Means res b.made b.failed b.maker o t) (k : Nat) {s : Stage ν} (hs : x.stage? k = some s)
    (hy : s.yield? = none) {o : Outcome ν} {t : Nat} (ht : res k = some (o, t)) : x.now < t := by
  have hidle := hrest.idle
  simp only [isIdle, Bool.and_eq_true, List.isEmpty_iff] at hidle
  induction k using Nat.strongRecOn generalizing s o t with
  | _ k ih =>
    obtain ⟨b, hb⟩ := h.exists_entry hs
    have hfits := h.fits k b s hb hs
    have hmet := (hmeans k b o t hb ht).met
    rw [hidle.1, hidle.2] at hfits
    by_cases hsleeps : ∃ r, s = .sleeping r
    · obtain ⟨r, rfl⟩ := hsleeps
      cases hfits with
      | @sleeping _ vs l s' hsleep hact hr hdue =>
        obtain ⟨-, htm⟩ := hdue.resolve_left fun hawake => List.not_mem_nil hawake.1
        have hlate : x.now < s' + min l.delay longestSleep := hrest.timers _ htm
        -- the inputs of a task that sleeps are all there, so they have not met otherwise
        have hthere : ∀ j ∈ b.maker.inputs, x.result? j ≠ none := by
          intro j hj
          obtain ⟨v, u, hv⟩ := Succeed.value hsleep j hj
          simp [hv]
        have hsleep' : Met res b.made b.failed b.maker (.ok vs) s' :=
          hsleep.mono (fun j _ y hj => hkeep j y hj) fun j hj o' u hold _ => absurd hold (hthere j hj)
        rcases hmet with ⟨vs', l', u, hmet, hact', -, rfl⟩ | ⟨e, hmet, -⟩
        · obtain ⟨hvs, rfl⟩ := hsleep'.unique hmet
          cases hvs
          rw [hact] at hact'
          cases hact'
          exact hlate
        · cases (hsleep'.unique hmet).1
    · have hnone := hfits.seen_eq_none hy fun r hr => hsleeps ⟨r, hr⟩
      by_contra hle
      -- what is known of the inputs now is what comes of them until now
      have hview : ∀ j ∈ b.maker.inputs, res.before (x.now + 1) j = x.result?.outcome j := by
        intro j hj
        have hjk := (h.inputs k b hb).2 j hj
        obtain ⟨s', hs'⟩ := exists_stage? (Nat.lt_trans hjk (lt_of_stage? hs))
        rcases hj' : x.result? j with _ | ⟨o', u⟩
        · rw [result?_of_stage? hs'] at hj'
          rcases hres : res j with _ | ⟨o', u⟩ <;>
            rw [Yields.before, hres, Yields.outcome, result?_of_stage? hs', hj']
          · rfl
          · have := ih j hjk hs' hj' hres
            exact if_neg (by omega)
        · have hshown : x.result?.outcome j = some o' := by rw [Yields.outcome, hj']; rfl
          obtain ⟨u', hu, hu'⟩ := h.shows j o' hshown
          rw [hshown, Yields.before_eq_some (hkeep j _ hu') (by omega)]
      have hseen := Maker.seen_congr hview
      rcases hmet with ⟨vs, l, u, hmet, -, -, rfl⟩ | ⟨e, hmet, -⟩
      · exact hmet.seen_before (by omega) (hseen.trans hnone)
      · exact hmet.seen_before (by omega) (hseen.trans hnone)

/-! ### Reading a result -/

/-- **A result that is waited for comes**, when it is there. -/
theorem runUntil_spec (n : Nat) (h : InOrder book x) (hi : i < x.tasks.length) (hn : x.weight < n) :
    ReflTransGen Move x (x.runUntil i n) ∧
      ∃ o t, (x.runUntil i n).result? i = some (o, t) ∧ (x.runUntil i n).now = max x.now t := by
  induction n generalizing x with
  | zero => exact absurd hn (Nat.not_lt_zero _)
  | succ n ih =>
    rw [runUntil, isFinished_eq]
    obtain ⟨s, hs⟩ := exists_stage? hi
    rcases hres : x.result? i with _ | ⟨o, t⟩
    · have hy : s.yield? = none := (result?_of_stage? hs).symm.trans hres
      simp only [Option.isSome_none, Bool.false_eq_true, if_false]
      split_ifs with hidle
      · -- the clock jumps, and the result is not there before the new time
        obtain ⟨tm₀, htm₀⟩ := exists_timer h hidle i hs hy
        rcases hnext : x.nextDue? with _ | due
        · rw [nextDue?_eq_none hnext] at htm₀
          exact absurd htm₀ List.not_mem_nil
        · have hjump := h.move_jump hidle hnext
          have hless := weight_jump_lt hnext
          have hnow : x.now ≤ due := hjump.grows.now
          obtain ⟨hmoves, o, t, ho, hend⟩ := ih (h.move hjump) hi (by omega)
          have hlate : due ≤ t := (Grows.of_moves hmoves).later i o t hres ho
          have hend : (runUntil i n (x.jump due)).now = max due t := hend
          exact ⟨.head hjump hmoves, o, t, ho, by dsimp only; omega⟩
      · obtain ⟨hround, hlt⟩ := works_round h
        have hless := hlt (by simpa using hidle)
        have hlen := (Grows.of_moves hround.moves).length
        obtain ⟨hmoves, o, t, ho, hend⟩ := ih (h.moves hround.moves) (Nat.lt_of_lt_of_le hi hlen) (by omega)
        exact ⟨hround.moves.trans hmoves, o, t, ho, by rw [hend, hround.now]⟩
    · have hshown : x.result?.outcome i = some o := by rw [Yields.outcome, hres]; rfl
      obtain ⟨t', ht', hres'⟩ := h.shows i o hshown
      rw [hres] at hres'
      cases hres'
      simp only [Option.isSome_some, if_true]
      exact ⟨.refl, o, t, hres, by omega⟩

/-- **A result can be read**, and the clock is then where it has to be for it, and no further. -/
theorem get_spec (h : InOrder book x) (hi : i < x.tasks.length) :
    ReflTransGen Move x (x.get i).2 ∧ ∃ o t, (x.get i).1 = some o ∧
      (x.get i).2.result? i = some (o, t) ∧ (x.get i).2.now = max x.now t := by
  -- without credit the tasks have a turn first
  generalize hturn : (if x.credit = 0 then { x.round with credit := readsPerLook } else x) = y
  have hy : ReflTransGen Move x y ∧ y.now = x.now := by
    rw [← hturn]
    split_ifs
    · have hround := (works_round h).1
      exact ⟨hround.moves.tail (.credit _), hround.now⟩
    · exact ⟨.refl, rfl⟩
  have hyorder := h.moves hy.1
  have hyi := Nat.lt_of_lt_of_le hi (Grows.of_moves hy.1).length
  have hget : x.get i =
      if y.isFinished i then (y.outcome? i, { y with credit := y.credit - 1 })
      else ((y.runUntil i (y.weight + 1)).outcome? i,
        { y.runUntil i (y.weight + 1) with credit := readsPerLook - 1 }) := by
    rw [get, hturn]
  obtain ⟨hmoves, o, t, ho, hend⟩ := runUntil_spec (y.weight + 1) hyorder hyi (Nat.lt_succ_self _)
  rw [hget, isFinished_eq]
  split_ifs with hdone
  · obtain ⟨⟨o, t⟩, ho⟩ := Option.isSome_iff_exists.1 hdone
    have hshown : y.result?.outcome i = some o := by rw [Yields.outcome, ho]; rfl
    obtain ⟨t', ht', ho'⟩ := hyorder.shows i o hshown
    rw [ho] at ho'
    cases ho'
    refine ⟨hy.1.tail (.credit _), o, t, ?_, ho, ?_⟩
    · rw [outcome?_eq, hshown]
    · show y.now = _
      omega
  · refine ⟨(hy.1.trans hmoves).tail (.credit _), o, t, ?_, ho, ?_⟩
    · rw [outcome?_eq, Yields.outcome, ho]
      rfl
    · show (y.runUntil i (y.weight + 1)).now = _
      rw [hend, hy.2]

end Handoff.Deferred.Executor
