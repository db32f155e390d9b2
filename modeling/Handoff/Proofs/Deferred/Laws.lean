import Handoff.Proofs.Deferred.Future

/-! # Laws of composition

Different compositions come to the same. What a task comes to that goes on from one other task is a function of what
that one comes to, so that two such tasks, one after the other, are compared with a single one by composing functions.
Two tasks in which every look finds the same are interchangeable wherever they stand, and then nothing has to be known
of their inputs: failures at the same time are treated alike.

* `goesOn`: what a task comes to that goes on from another; `goesOnTwice`: one that awaits two computations.
* `Later.Awaits`: a computation that awaits another one and goes on from its value.
* `Interchangeable`: makers that look the same; `Interchangeable.future_eq` says that programs do the same with them.
* `ComposeAlike`, `composition_laws`: the laws, for all programs.
-/

namespace Handoff.Deferred

variable {ν : Type}

/-! ### Computations -/

/-- **How long a computation takes.** -/
def Later.duration (l : Later ν) : Nat := min l.delay Executor.longestSleep

/-- A computation that takes no time. -/
def Later.now (r : Except Panic ν) : Later ν := ⟨0, r⟩

@[simp] theorem Later.duration_now (r : Except Panic ν) : (Later.now r).duration = 0 := Nat.zero_min _

/-- **A computation that awaits `l` and feeds its value to `g`**: if `l` breaks off it does so, too, and otherwise it
takes the time of both. -/
inductive Later.Awaits (h l : Later ν) (g : ν → Later ν) : Prop where
  | breaks {b : Panic} (hl : l.result = .error b) (hr : h.result = .error b) (hd : h.duration = l.duration)
  | feeds {w : ν} (hl : l.result = .ok w) (hr : h.result = (g w).result)
      (hd : h.duration = l.duration + (g w).duration)

/-- A function of a value of a function is a computation that awaits the one and feeds its value to the other. -/
theorem Later.awaits_now (f g : ν → Except Panic ν) (v : ν) :
    (now (f v >>= g)).Awaits (now (f v)) fun w => now (g w) := by
  rcases h : f v with b | w
  · exact .breaks rfl rfl rfl
  · exact .feeds rfl rfl (by simp)

/-- **What a task comes to that goes on from another** and is made at the time `made`: it hands on a failure, and it
goes on from a value as soon as it is there. -/
def goesOn (made : Nat) (f : ν → Later ν) : Outcome ν × Nat → Outcome ν × Nat
  | (.error e, s) => (.error e, max s made)
  | (.ok v, s) => (outcomeOf (f v).result, max s made + (f v).duration)

/-- **What a task comes to that awaits two computations**, one after the other, each for its own time. -/
def goesOnTwice (made : Nat) (f g : ν → Later ν) : Outcome ν × Nat → Outcome ν × Nat
  | (.error e, s) => (.error e, max s made)
  | (.ok v, s) =>
    match (f v).result with
    | .error b => (.error b.failure, max s made + (f v).duration)
    | .ok w => (outcomeOf (g w).result, max s made + (f v).duration + (g w).duration)

/-- **Two tasks that go on one from the other** come to the same as one that awaits both computations. -/
theorem goesOn_goesOn (made : Nat) (f g : ν → Later ν) (r : Outcome ν × Nat) :
    goesOn made g (goesOn made f r) = goesOnTwice made f g r := by
  obtain ⟨e | v, s⟩ := r
  · simp [goesOn, goesOnTwice]
  · have hmade : max (max s made + (f v).duration) made = max s made + (f v).duration := by omega
    rcases hf : (f v).result with b | w <;> simp [goesOn, goesOnTwice, hf, outcomeOf, Except.mapError, hmade]

/-- So does one whose only computation awaits the first and feeds its value to the second. -/
theorem goesOn_of_awaits {made : Nat} {f g h : ν → Later ν} (hawaits : ∀ v, (h v).Awaits (f v) g)
    (r : Outcome ν × Nat) : goesOn made h r = goesOnTwice made f g r := by
  obtain ⟨e | v, s⟩ := r
  · rfl
  · cases hawaits v with
    | breaks hl hr hd => simp [goesOn, goesOnTwice, hl, hr, hd, outcomeOf, Except.mapError]
    | feeds hl hr hd => simp [goesOn, goesOnTwice, hl, hr, hd, Nat.add_assoc]

/-! ### What tasks come to -/

section Means

variable {f : Nat → Outcome ν × Nat} {made t i : Nat} {failed : Nat → Prop} {m : Maker ν} {e : Failure} {o : Outcome ν}

/-- A task that reads one other hands on its failure. -/
theorem Maker.Fails.single (h : m.Fails (fun j => some (f j)) made failed e t) (hm : m.inputs = [i])
    (hmany : m.isMany = false) : ∃ s, f i = (.error e, s) ∧ t = max s made := by
  unfold Maker.Fails at h
  rw [if_neg (by rw [hmany]; decide), hm] at h
  obtain ⟨front, k, rest, s, his, hk, ht, -⟩ := h.fails
  obtain rfl : i = k := by
    have hmem : k ∈ [i] := by rw [his]; simp
    exact (List.mem_singleton.1 hmem).symm
  exact ⟨s, Option.some.inj hk, ht⟩

theorem Means.andThen_eq {φ : ν → Later ν} (h : Means (fun j => some (f j)) made failed (.andThen i φ) o t) :
    (o, t) = goesOn made φ (f i) := by
  cases h with
  | andThen hi => rw [Option.some.inj hi]; rfl
  | fails hfails =>
    obtain ⟨s, hi, rfl⟩ := hfails.single rfl rfl
    rw [hi]
    rfl

theorem Means.map_eq {φ : ν → Except Panic ν} (h : Means (fun j => some (f j)) made failed (.map i φ) o t) :
    (o, t) = goesOn made (fun v => .now (φ v)) (f i) := by
  cases h with
  | map hi => rw [Option.some.inj hi]; simp [goesOn, Later.now, Later.duration]
  | fails hfails =>
    obtain ⟨s, hi, rfl⟩ := hfails.single rfl rfl
    rw [hi]
    rfl

theorem Means.source_eq {l : Later ν} {apart : Bool}
    (h : Means (fun j => some (f j)) made failed (.source l apart) o t) :
    (o, t) = (outcomeOf l.result, made + l.duration) := by
  cases h with
  | source => rfl
  | fails hfails =>
    obtain ⟨j, hj, -⟩ := hfails.failing
    cases hj

end Means

/-! ### Programs -/

/-- **A task of a program comes to this, at this time.** -/
def Comes (p : List (Step ν)) (i : Nat) (r : Outcome ν × Nat) : Prop :=
  ∃ n, let x := ({} : Executor ν).run (p ++ Executor.waits n)
    x.outcome? i = some r.1 ∧ x.finishTime? i = some r.2

/-- A program makes a task of `m` at the time `made`. -/
def Makes (p : List (Step ν)) (i made : Nat) (m : Maker ν) : Prop :=
  ∃ before after, p = before ++ .make m :: after ∧ (({} : Executor ν).run before).tasks.length = i ∧
    (({} : Executor ν).run before).now = made

namespace Executor

theorem result?_eq_some_iff {x : Executor ν} {i t : Nat} {o : Outcome ν} :
    x.result? i = some (o, t) ↔ x.outcome? i = some o ∧ x.finishTime? i = some t := by
  rw [outcome?_eq, finishTime?_eq, Yields.outcome]
  rcases x.result? i with _ | ⟨o', t'⟩ <;> simp

/-- **What a task comes to is its future.** -/
theorem future_of_comes {p : List (Step ν)} (hp : IsLinear 0 [] p) {i : Nat} {r : Outcome ν × Nat} (h : Comes p i r) :
    (({} : Executor ν).run p).future i = some r := by
  obtain ⟨n, hn⟩ := h
  rw [← future_run (isLinear_append_waits hp n) (quiet_waits n)]
  exact future_of_result? (result?_eq_some_iff.2 hn)

end Executor

open Executor

/-- **What all tasks of a program come to.** -/
structure Fates (p : List (Step ν)) (f : Nat → Outcome ν × Nat) : Prop where
  eq : ∀ {i : Nat} {r : Outcome ν × Nat}, Comes p i r → f i = r
  comes : ∀ {i made : Nat} {m : Maker ν}, Makes p i made m → Comes p i (f i)
  means : ∀ {i made : Nat} {m : Maker ν}, Makes p i made m →
    ∃ failed, Means (fun j => some (f j)) made failed m (f i).1 (f i).2

theorem exists_fates {p : List (Step ν)} (hp : IsLinear 0 [] p) : ∃ f, Fates p f := by
  obtain ⟨f, hf⟩ := exists_future (({} : Executor ν).run p)
  obtain ⟨n, hlinear, hend⟩ := exists_isEnd hp hf
  -- each maker stands somewhere in the program, and its task is done in the end
  have hmakes : ∀ {i made m}, Makes p i made m → Comes p i (f i) ∧
      ∃ failed, Means (fun j => some (f j)) made failed m (f i).1 (f i).2 := by
    rintro i made m ⟨before, after, hsplit, rfl, rfl⟩
    have hsplit' : p ++ waits n = before ++ .make m :: (after ++ waits n) := by
      rw [hsplit, List.append_assoc, List.cons_append]
    have hmade := (hsplit' ▸ hend).agrees (hsplit' ▸ hlinear)
    obtain ⟨hx, -, horder, -⟩ := run_split (hsplit' ▸ hlinear)
    have hlt : (({} : Executor ν).run before).tasks.length < (({} : Executor ν).run (p ++ waits n)).tasks.length := by
      rw [hsplit', ← horder.length, ← hx.length, List.length_append, written, List.length_cons]
      omega
    have hdone := Option.isSome_iff_ne_none.2 (hend.done _ hlt)
    rw [← isFinished_eq] at hdone
    have hkeeps : KeepsTo f (({} : Executor ν).run (p ++ waits n)) := hend.keepsTo (hsplit' ▸ horder) (.refl _)
    obtain ⟨ho, ht, -⟩ := hkeeps _ hdone
    exact ⟨⟨n, ho, ht⟩, _, hmade.2.2⟩
  exact ⟨f, fun hr => hf _ _ (future_of_comes hp hr), fun hi => (hmakes hi).1, fun hi => (hmakes hi).2⟩

namespace Fates

variable {p : List (Step ν)} {f : Nat → Outcome ν × Nat} {i d made : Nat}

theorem andThen {φ : ν → Later ν} (h : Fates p f) (hi : Makes p i made (.andThen d φ)) :
    f i = goesOn made φ (f d) := by
  obtain ⟨failed, hmeans⟩ := h.means hi
  exact hmeans.andThen_eq

theorem map {φ : ν → Except Panic ν} (h : Fates p f) (hi : Makes p i made (.map d φ)) :
    f i = goesOn made (fun v => .now (φ v)) (f d) := by
  obtain ⟨failed, hmeans⟩ := h.means hi
  exact hmeans.map_eq

theorem source {l : Later ν} {apart : Bool} (h : Fates p f) (hi : Makes p i made (.source l apart)) :
    f i = (outcomeOf l.result, made + l.duration) := by
  obtain ⟨failed, hmeans⟩ := h.means hi
  exact hmeans.source_eq

end Fates

/-! ### Makers that look the same -/

/-- **Makers that look the same**: they have the same inputs, and a look finds the same. -/
structure Interchangeable (m m' : Maker ν) : Prop where
  inputs : m.inputs = m'.inputs
  poll : ∀ view, m.poll view = m'.poll view

/-- **Two values that are combined look like all values of a list of two**, failures included. -/
theorem interchangeable_all (a b : Nat) (pack : List ν → ν) :
    Interchangeable (.combine a b fun v w => .ok (pack [v, w])) (.all [a, b] pack) where
  inputs := rfl
  poll view := by
    have hfew : ¬ sideBySide < [a, b].length := by simp [sideBySide]
    rw [Maker.poll, Maker.poll, if_neg hfew]
    rcases ha : view a with _ | (e | v) <;> rcases hb : view b with _ | (e' | w) <;>
      simp [ha, hb, joinPair, joinEarly, firstFailure, allValues, outcomeOf, Except.map, Except.mapError]

/-- **Programs do the same with makers that look the same.** -/
theorem Interchangeable.future_eq {m m' : Maker ν} (h : Interchangeable m m') (before after : List (Step ν)) (i : Nat) :
    (({} : Executor ν).run (before ++ .make m :: after)).future i =
      (({} : Executor ν).run (before ++ .make m' :: after)).future i := by
  classical
  -- both programs are recast as one in which the second maker does not occur
  let φ : Maker ν → Maker ν := fun n => if n = m' then m else n
  have hφ : Unseen φ := by
    constructor
    · intro n
      simp only [φ]
      split_ifs with hn
      · rw [hn, h.inputs]
      · rfl
    · intro view n
      simp only [φ]
      split_ifs with hn
      · rw [hn, h.poll]
      · rfl
  have hsame : (before ++ .make m :: after).map (Step.recast φ) =
      (before ++ .make m' :: after).map (Step.recast φ) := by
    have hm : φ m = m := by simp [φ]
    have hm' : φ m' = m := by simp [φ]
    simp only [List.map_append, List.map_cons, Step.recast, hm, hm']
  have hrun : ∀ p : List (Step ν), (({} : Executor ν).run (p.map (Step.recast φ))).future i =
      (({} : Executor ν).run p).future i := by
    intro p
    have hstart : ({} : Executor ν).recast φ id = {} := rfl
    have hp := run_recast hφ p ({} : Executor ν)
    rw [hstart] at hp
    rw [hp, future_recast hφ]
  rw [← hrun, hsame, hrun]

/-! ### The laws -/

/-- **Two tasks, each of its program, come to the same**: they have the same value or failure, at the same time. -/
def ComeToSame (p : List (Step ν)) (j : Nat) (p' : List (Step ν)) (k : Nat) : Prop :=
  ∃ r, Comes p j r ∧ Comes p' k r

/-- **Compositions in one program come to the same as simpler ones in another.** Where the tasks `d` and `d'` come to
the same, be it a value or a failure, so do these compositions of them, if they are made at the same time. -/
structure ComposeAlike (p p' : List (Step ν)) : Prop where
  /-- Two functions, one after the other, are one function. -/
  mapMap : ∀ d d' made f g i j k, ComeToSame p d p' d' → Makes p i made (.map d f) → Makes p j made (.map i g) →
    Makes p' k made (.map d' fun v => f v >>= g) → ComeToSame p j p' k
  /-- A computation that takes no time is a function. -/
  thenNow : ∀ d d' made f j k, ComeToSame p d p' d' → Makes p j made (.andThen d fun v => .now (f v)) →
    Makes p' k made (.map d' f) → ComeToSame p j p' k
  /-- Two computations, one after the other, are awaited one after the other, however long they take. -/
  thenThen : ∀ d r made f g i j, Comes p d r → Makes p i made (.andThen d f) → Makes p j made (.andThen i g) →
    Comes p j (goesOnTwice made f g r)
  /-- They are one computation that awaits the first and feeds its value to the second. -/
  thenAwaits : ∀ d d' made f g h i j k, ComeToSame p d p' d' → Makes p i made (.andThen d f) →
    Makes p j made (.andThen i g) → (∀ v, (h v).Awaits (f v) g) → Makes p' k made (.andThen d' h) → ComeToSame p j p' k
  /-- A computation that starts from a value that is there is a computation of its own. -/
  completedThen : ∀ v f made i j k, Makes p i made (.completed v) → Makes p j made (.andThen i f) →
    Makes p' k made (.spawn (f v)) → ComeToSame p j p' k
  /-- To combine two tasks is to take all of a list of two, whenever they fail. -/
  combineAll : ∀ before a b pack after, p = before ++ .make (.combine a b fun v w => .ok (pack [v, w])) :: after →
    p' = before ++ .make (.all [a, b] pack) :: after →
      let j := (({} : Executor ν).run before).tasks.length
      ComeToSame p j p' j

/-- **The laws of composition hold for all programs.** -/
theorem composition_laws (p p' : List (Step ν)) (hp : IsLinear 0 [] p) (hp' : IsLinear 0 [] p') :
    ComposeAlike p p' := by
  obtain ⟨f, hf⟩ := exists_fates hp
  obtain ⟨f', hf'⟩ := exists_fates hp'
  have hsame : ∀ {d d'}, ComeToSame p d p' d' → f d = f' d' := fun ⟨r, hd, hd'⟩ => by rw [hf.eq hd, hf'.eq hd']
  have hboth : ∀ {j k made made' m m'}, Makes p j made m → Makes p' k made' m' → f j = f' k →
      ComeToSame p j p' k := fun hj hk heq => ⟨_, hf.comes hj, heq ▸ hf'.comes hk⟩
  constructor
  case mapMap =>
    intro d d' made φ ψ i j k hd hi hj hk
    refine hboth hj hk ?_
    rw [hf.map hj, hf.map hi, goesOn_goesOn, hf'.map hk, goesOn_of_awaits (Later.awaits_now φ ψ), hsame hd]
  case thenNow =>
    intro d d' made φ j k hd hj hk
    refine hboth hj hk ?_
    rw [hf.andThen hj, hf'.map hk, hsame hd]
  case thenThen =>
    intro d r made φ ψ i j hd hi hj
    have hcomes := hf.comes hj
    rwa [hf.andThen hj, hf.andThen hi, goesOn_goesOn, hf.eq hd] at hcomes
  case thenAwaits =>
    intro d d' made φ ψ h i j k hd hi hj hawaits hk
    refine hboth hj hk ?_
    rw [hf.andThen hj, hf.andThen hi, goesOn_goesOn, hf'.andThen hk, goesOn_of_awaits hawaits, hsame hd]
  case completedThen =>
    intro v φ made i j k hi hj hk
    refine hboth hj hk ?_
    have hvalue : f i = (.ok v, made) := hf.source hi
    have hspawned : f' k = (outcomeOf (φ v).result, made + (φ v).duration) := hf'.source hk
    rw [hf.andThen hj, hvalue, hspawned, goesOn, Nat.max_self]
  case combineAll =>
    intro before a b pack after hsplit hsplit'
    have hj : Makes p _ _ _ := ⟨before, after, hsplit, rfl, rfl⟩
    have hk : Makes p' _ _ _ := ⟨before, after, hsplit', rfl, rfl⟩
    refine hboth hj hk ?_
    have hleft := future_of_comes hp (hf.comes hj)
    have hright := future_of_comes hp' (hf'.comes hk)
    rw [hsplit, (interchangeable_all a b pack).future_eq before after, ← hsplit', hright] at hleft
    exact (Option.some.inj hleft).symm

/-- Two tasks that fail at the same time, the first of them after a while, and what they are put together to. -/
def twoFailures (m : Maker (List Nat)) : List (Step (List Nat)) :=
  [.make (.spawn ⟨1, .error (.text "first")⟩), .wait 1, .make (.spawn ⟨0, .error (.text "second")⟩), .make m]

/-- Combined or taken as a list, the second one first, they come to the failure of the second. -/
theorem composition_laws_twoFailures :
    let p := twoFailures (.combine 1 0 fun v w => .ok (List.flatten [v, w]))
    let p' := twoFailures (.all [1, 0] List.flatten)
    IsLinear 0 [] p ∧ IsLinear 0 [] p' ∧ ComeToSame p 2 p' 2 ∧
      ((({} : Executor (List Nat)).run p').get 2).1 = some (.error (Panic.text "second").failure) := by
  intro p p'
  have hp : IsLinear 0 [] p := by simp [p, twoFailures, IsLinear, Maker.inputs, Maker.spawn]
  have hp' : IsLinear 0 [] p' := by simp [p', twoFailures, IsLinear, Maker.inputs, Maker.spawn]
  exact ⟨hp, hp', (composition_laws p p' hp hp').combineAll (p.take 3) 1 0 List.flatten [] rfl rfl, rfl⟩

end Handoff.Deferred
