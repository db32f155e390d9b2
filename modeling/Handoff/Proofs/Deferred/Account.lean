import Mathlib.Data.List.Nodup
import Handoff.Proofs.Deferred.Fits

/-! # What is known of the tasks

Beside the tasks stands a book in which is written what each was made of, when, and which tasks had
failed then. Every task fits its entry, at every stage.

* `Executor.Account`: the whole account; it says for which tasks a look or a return is still owed.
* `Executor.Account.move`: every move keeps the account.
* `Executor.Account.make`: a new task keeps it, if nothing else reads its inputs.
-/

namespace Handoff.Deferred

variable {ν : Type}

namespace Executor

/-- **The account of all tasks.** A look is owed to the tasks `awake`, and what they have put off to the
tasks `late`. -/
structure Account (book : List (Entry ν)) (awake late : List Nat) (x : Executor ν) : Prop where
  length : book.length = x.tasks.length
  awake_nodup : awake.Nodup
  awake_lt : ∀ k ∈ awake, k < x.tasks.length
  timers_nodup : (x.timers.map Timer.task).Nodup
  timers : ∀ tm ∈ x.timers, (∃ r, x.stage? tm.task = some (.sleeping r)) ∧ x.now ≤ tm.due ∧
    tm.due ≤ x.now + longestSleep
  made : ∀ b ∈ book, b.made ≤ x.now
  inputs : ∀ (k : Nat) (b : Entry ν), book[k]? = some b → b.maker.inputs.Nodup ∧ ∀ j ∈ b.maker.inputs, j < k
  reader : ∀ j k, x.reader? j = some k ↔ ∃ b, book[k]? = some b ∧ j ∈ b.maker.inputs
  failed : ∀ b ∈ book, ∀ j, b.failed j → ∃ e t, x.result? j = some (.error e, t)
  fits : ∀ (k : Nat) (b : Entry ν) (s : Stage ν), book[k]? = some b → x.stage? k = some s →
    Fits x.now x.result? awake late x.timers k b s

/-- The account when nothing is owed but looks at ready tasks and returns to those who wait for them. -/
abbrev InOrder (book : List (Entry ν)) (x : Executor ν) : Prop := Account book x.ready x.postponed x

section Account

variable {book : List (Entry ν)} {awake awake' late late' : List Nat} {x y : Executor ν} {i : Nat}

theorem Account.exists_entry (h : Account book awake late x) {k : Nat} {s : Stage ν}
    (hs : x.stage? k = some s) : ∃ b, book[k]? = some b := by
  have hk : k < book.length := h.length ▸ lt_of_stage? hs
  exact ⟨_, List.getElem?_eq_getElem hk⟩

/-- No result is dated ahead. -/
theorem Account.shows (h : Account book awake late x) : x.result?.Shows x.now x.result?.outcome := by
  intro j o hj
  rcases hr : x.result? j with _ | ⟨o', t⟩ <;> rw [Yields.outcome, hr] at hj
  · cases hj
  · cases hj
    obtain ⟨b, hb⟩ := h.exists_entry (stage?_of_result? hr)
    have hfits := h.fits j b _ hb (stage?_of_result? hr)
    cases hfits with
    | done _ ht => exact ⟨t, ht, rfl⟩

/-- **One task has changed**, the others are as they were. -/
theorem Account.replace (h : Account book awake late x) (i : Nat) (hnow : y.now = x.now)
    (hlength : y.tasks.length = x.tasks.length) (hreader : ∀ k, y.reader? k = x.reader? k)
    (hresult : y.result? = x.result?) (hstage : ∀ k, k ≠ i → y.stage? k = x.stage? k)
    (hnodup : awake'.Nodup) (hlt : i ∈ awake' → i < x.tasks.length)
    (hawake : ∀ k, k ≠ i → (k ∈ awake' ↔ k ∈ awake))
    (hlate : ∀ k, k ≠ i → k ∈ late → k ∈ late')
    (htnodup : (y.timers.map Timer.task).Nodup)
    (htimers : ∀ tm ∈ y.timers, tm ∈ x.timers ∧ tm.task ≠ i ∨
      (∃ r, y.stage? tm.task = some (.sleeping r)) ∧ x.now ≤ tm.due ∧ tm.due ≤ x.now + longestSleep)
    (hsame : ∀ k, k ≠ i → ∀ d, ⟨d, k⟩ ∈ y.timers ↔ ⟨d, k⟩ ∈ x.timers)
    (hself : ∀ b s, book[i]? = some b → y.stage? i = some s →
      Fits x.now x.result? awake' late' y.timers i b s) : Account book awake' late' y := by
  refine ⟨h.length.trans hlength.symm, hnodup, fun k hk => ?_, htnodup, fun tm htm => ?_,
    fun b hb => ?_, h.inputs, fun j k => ?_, fun b hb j hj => ?_, fun k b s hb hs => ?_⟩
  · rw [hlength]
    rcases Decidable.em (k = i) with rfl | hki
    · exact hlt hk
    · exact h.awake_lt k ((hawake k hki).1 hk)
  · rw [hnow]
    rcases htimers tm htm with ⟨hold, hne⟩ | hnew
    · rw [hstage _ hne]
      exact h.timers tm hold
    · exact hnew
  · rw [hnow]
    exact h.made b hb
  · rw [hreader]
    exact h.reader j k
  · rw [hresult]
    exact h.failed b hb j hj
  · rw [hnow, hresult]
    rcases Decidable.em (k = i) with rfl | hk
    · exact hself b s hb hs
    · rw [hstage k hk] at hs
      exact (h.fits k b s hb hs).frame (fun _ _ => rfl) (hawake k hk) (hlate k hk) (hsame k hk)

theorem Account.no_timer (h : Account book awake late x) {s : Stage ν} (hs : x.stage? i = some s)
    (hawake : ∀ r, s ≠ .sleeping r) (d : Nat) : ⟨d, i⟩ ∉ x.timers := by
  intro hd
  obtain ⟨⟨r, hr⟩, -⟩ := h.timers _ hd
  exact hawake r (Option.some_inj.1 (hs.symm.trans hr))

/-- **The end of a task keeps the account**, if the task has come now to what its entry means. -/
theorem Account.finish (h : Account book (i :: x.ready) x.postponed x) {s₀ : Stage ν} {b : Entry ν}
    {o : Outcome ν} (hs : x.stage? i = some s₀) (hy : s₀.yield? = none) (hb : book[i]? = some b)
    (hmeans : Means x.result? b.made b.failed b.maker o x.now) (htimer : ∀ d, ⟨d, i⟩ ∉ x.timers) :
    InOrder book (x.finish i o) := by
  have hf := finished_finish o hs
  generalize x.finish i o = y at hf
  have hnow : y.now = x.now := by rw [hf.same]
  have htimers : y.timers = x.timers := by rw [hf.same]
  have hpostponed : y.postponed = x.postponed := by rw [hf.same]
  have hi : x.result? i = none := (result?_of_stage? hs).trans hy
  have hself : y.result? i = some (o, x.now) := by rw [hf.result?, if_pos rfl]
  have hother : ∀ k, k ≠ i → y.result? k = x.result? k := fun k hk => by rw [hf.result?, if_neg hk]
  obtain ⟨hnot, hnodup⟩ := List.nodup_cons.1 h.awake_nodup
  have hreads : ∀ k b', book[k]? = some b' → i ∈ b'.maker.inputs → k ≠ i ∧ x.reader? i = some k := by
    intro k b' hb' hin
    have hlt := (h.inputs k b' hb').2 i hin
    exact ⟨by omega, (h.reader i k).2 ⟨b', hb', hin⟩⟩
  have hne : ∀ j, x.reader? i = some j → j ≠ i := by
    intro j hj
    obtain ⟨b', hb', hin⟩ := (h.reader i j).1 hj
    exact (hreads j b' hb' hin).1
  have hlt : ∀ k ∈ x.ready, k < y.tasks.length := by
    intro k hk
    rw [hf.length]
    exact h.awake_lt k (List.mem_cons_of_mem _ hk)
  have hready : y.ready.Nodup ∧ (∀ k ∈ y.ready, k < y.tasks.length) ∧ ∀ k ∈ x.ready, k ∈ y.ready := by
    rcases hf.ready with hr | ⟨j, hread, hj, hr⟩ <;> rw [hr]
    · exact ⟨hnodup, hlt, fun k hk => hk⟩
    · obtain ⟨b', hb', -⟩ := (h.reader i j).1 hread
      have hjlt : j < y.tasks.length := by
        rw [hf.length, ← h.length]
        exact (List.getElem?_eq_some_iff.1 hb').1
      exact ⟨List.concat_eq_append ▸ List.Nodup.concat hj hnodup,
        List.forall_mem_append.2 ⟨hlt, by simpa using hjlt⟩,
        fun k hk => by simp [hk]⟩
  refine ⟨h.length.trans hf.length.symm, hready.1, hready.2.1, by rw [htimers]; exact h.timers_nodup,
    fun tm htm => ?_,
    fun b hb => by rw [hnow]; exact h.made b hb, h.inputs, fun j k => by rw [hf.reader]; exact h.reader j k,
    fun b hb j hj => ?_, fun k b' s hb' hs' => ?_⟩
  · rw [htimers] at htm
    obtain ⟨⟨r, hr⟩, hdue⟩ := h.timers tm htm
    have htask : tm.task ≠ i := fun hti => htimer tm.due (hti ▸ htm)
    refine ⟨⟨r, ?_⟩, by rw [hnow]; exact hdue⟩
    by_cases hread : x.reader? i = some tm.task
    · rw [hf.stage_reader _ htask hread, hr]
      rfl
    · rw [hf.stage_other _ htask hread, hr]
  · obtain ⟨e, t, hj⟩ := h.failed b hb j hj
    refine ⟨e, t, ?_⟩
    rw [hother j (by rintro rfl; rw [hi] at hj; cases hj), hj]
  · rw [hnow, htimers, hpostponed]
    by_cases hk : k = i
    · subst hk
      rw [hf.stage_self] at hs'
      rw [hb] at hb'
      cases hs'
      cases hb'
      refine .done (hmeans.mono (fun j _ y hj => ?_) fun j _ o' t hj hj' => ?_) (Nat.le_refl _)
      · rw [hother j (by rintro rfl; rw [hi] at hj; cases hj), hj]
      · by_cases hjk : j = k
        · rw [hjk, hself] at hj'
          cases hj'
          exact Nat.le_refl _
        · rw [hother j hjk, hj] at hj'
          cases hj'
    · by_cases hread : x.reader? i = some k
      · rw [hf.stage_reader k hk hread] at hs'
        obtain ⟨s, hold, rfl⟩ := Option.map_eq_some_iff.1 hs'
        obtain ⟨b'', hb'', hin⟩ := (h.reader i k).1 hread
        rw [hb'] at hb''
        cases hb''
        refine (h.fits k b' s hb' hold).told hi hin hself hother (fun ha => ?_) (hf.heeded k s hk hread hold)
        exact hready.2.2 k (by simpa [hk] using ha)
      · rw [hf.stage_other k hk hread] at hs'
        have hin : i ∉ b'.maker.inputs := fun hin => hread (hreads k b' hb' hin).2
        refine (h.fits k b' s hb' hs').frame (fun j hj => hother j fun hji => hin (hji ▸ hj)) ?_ id
          fun d => Iff.rfl
        rcases hf.ready with hr | ⟨j, hj, -, hr⟩
        · simp [hr, hk]
        · have hkj : k ≠ j := fun hkj => hread (hkj ▸ hj)
          simp [hr, hk, hkj]

/-- A task that falls asleep has got all its inputs, and its timer is set. -/
theorem Account.sleep (h : Account book (i :: x.ready) x.postponed x) {s₀ : Stage ν} {b : Entry ν}
    {vs : List ν} {l : Later ν} (hs : x.stage? i = some s₀) (hy : s₀.yield? = none)
    (hb : book[i]? = some b) (hmet : Met x.result? b.made b.failed b.maker (.ok vs) x.now)
    (hact : b.maker.act vs = some l) (htimer : ∀ d, ⟨d, i⟩ ∉ x.timers) :
    InOrder book (x.sleep i l.delay l.result) := by
  have hself := stage?_setStage_self (.sleeping l.result) hs
  have htimers : (x.sleep i l.delay l.result).timers =
      x.timers ++ [⟨x.now + min l.delay longestSleep, i⟩] := rfl
  obtain ⟨hnot, hnodup⟩ := List.nodup_cons.1 h.awake_nodup
  refine h.replace i rfl (length_setStage ..) (fun k => reader?_setStage ..) (result?_setStage hs hy.symm)
    (fun k hk => stage?_setStage_of_ne _ hk) hnodup (fun _ => lt_of_stage? hs) (fun k hk => ?_)
    (fun k _ hk => hk) ?_
    (fun tm htm => ?_) (fun k hk d => ?_) fun b' s hb' hs' => ?_
  · show k ∈ x.ready ↔ _
    simp [hk]
  · rw [htimers, List.map_append, List.nodup_append]
    refine ⟨h.timers_nodup, by simp, ?_⟩
    rintro _ htask _ hi rfl
    obtain ⟨tm, htm, rfl⟩ := List.mem_map.1 htask
    have hti : tm.task = i := by simpa using hi
    exact htimer tm.due (hti ▸ htm)
  · rw [htimers, List.mem_append, List.mem_singleton] at htm
    rcases htm with htm | rfl
    · exact .inl ⟨htm, fun hti => htimer tm.due (hti ▸ htm)⟩
    · exact .inr ⟨⟨_, hself⟩, Nat.le_add_right _ _, Nat.add_le_add_left (Nat.min_le_right _ _) _⟩
  · rw [htimers]
    simp [hk]
  · rw [hb] at hb'
    cases hb'
    cases hself.symm.trans hs'
    exact .sleeping hmet hact rfl (.inr ⟨hnot, by rw [htimers]; simp⟩)

/-- **A look at a gathering keeps the account.** -/
theorem Account.gather (h : Account book (i :: x.ready) x.postponed x) {s₀ : Stage ν} {b : Entry ν}
    {g : Gathering ν} (hs : x.stage? i = some s₀) (hy : s₀.yield? = none) (hb : book[i]? = some b)
    (hmaker : b.maker = .all g.inputs g.pack) (hmany : sideBySide < g.inputs.length)
    (hsorts : g.Sorts x.result?)
    (htime : b.made = x.now ∨ b.maker.seen (x.result?.before x.now) = none)
    (htimer : ∀ d, ⟨d, i⟩ ∉ x.timers) : InOrder book (x.gather i g) := by
  have hthere : ∀ j, x.isFinished j = (x.result? j).isSome := isFinished_eq x
  have hsorts' := hsorts.look hthere
  rcases gather_cases x i g with ⟨o, ho, hgather⟩ | ⟨hnone, hgather⟩
  · rw [hgather]
    refine h.finish hs hy hb ?_ htimer
    rw [Gathering.result?_eq (g := g.look x.isFinished) hmany] at ho
    obtain ⟨r, hr, rfl⟩ := Option.map_eq_some_iff.1 ho
    have hshows : x.result?.Shows x.now ((g.look x.isFinished).view x.result?) := by
      intro j o hj
      unfold Gathering.view at hj
      split_ifs at hj
      exact h.shows j o hj
    have hmet : Met x.result? b.made b.failed b.maker r x.now :=
      .of_seen hshows (h.made b (List.mem_of_getElem? hb)) htime
        (fun hfew => by simp [hmaker, Maker.isMany, hmany] at hfew) (hmaker ▸ hr)
    rw [hmaker] at hmet ⊢
    exact .of_gathered hmet
  · obtain ⟨hnot, hnodup⟩ := List.nodup_cons.1 h.awake_nodup
    have hself := stage?_setStage_self (.gathering (g.look x.isFinished)) hs
    have hstage : ∀ k, (x.gather i g).stage? k =
        (x.setStage i (.gathering (g.look x.isFinished))).stage? k := fun k => by
      rw [stage?, stage?, hgather.tasks]
    have htimers : (x.gather i g).timers = x.timers := by rw [hgather.same]
    refine h.replace i (by rw [hgather.same]) (by rw [hgather.tasks, length_setStage])
      (fun k => by rw [reader?, hgather.tasks]; exact reader?_setStage ..)
      ((result?_of_tasks hgather.tasks).trans (result?_setStage hs hy.symm))
      (fun k hk => (hstage k).trans (stage?_setStage_of_ne _ hk)) ?_ (fun _ => lt_of_stage? hs)
      (fun k hk => ?_) (fun k hk hk' => ?_) (by rw [htimers]; exact h.timers_nodup) (fun tm htm => ?_)
      (fun k _ d => by rw [htimers])
      fun b' s hb' hs' => ?_
    · rcases hgather.ready with hr | ⟨-, -, hr⟩ <;> rw [hr]
      · exact hnodup
      · exact List.concat_eq_append ▸ List.Nodup.concat hnot hnodup
    · rcases hgather.ready with hr | ⟨-, -, hr⟩ <;> simp [hr, hk]
    · rcases hgather.postponed with ⟨hp, -⟩ | ⟨hp, -⟩ <;> simp [hp, hk']
    · rw [htimers] at htm
      exact .inl ⟨htm, fun hti => htimer tm.due (hti ▸ htm)⟩
    · rw [hb] at hb'
      cases hb'
      rw [hstage, hself] at hs'
      cases hs'
      refine .gathering hmaker hmany hsorts' hnone (fun hq => absurd rfl hq) (fun hp => ?_) htime
      rcases hgather.postponed with ⟨hp', hempty | hin⟩ | ⟨hp', -⟩
      · exact absurd hempty hp
      · rw [hp']; exact hin
      · simp [hp']

/-- **A look keeps the account**, and is owed no longer. -/
theorem Account.look (h : Account book (i :: x.ready) x.postponed x) : InOrder book (x.look i) := by
  obtain ⟨hnot, hnodup⟩ := List.nodup_cons.1 h.awake_nodup
  have hlt : i ∈ x.ready → i < x.tasks.length := fun hi => absurd hi hnot
  -- a look that finds nothing to do
  have hvain : (∀ b s, book[i]? = some b → x.stage? i = some s →
      Fits x.now x.result? x.ready x.postponed x.timers i b s) → InOrder book x := by
    intro hfits
    exact h.replace i rfl rfl (fun _ => rfl) rfl (fun _ _ => rfl) hnodup hlt
      (fun k hk => by simp [hk]) (fun _ _ hk => hk) h.timers_nodup (fun tm htm => .inr (h.timers tm htm))
      (fun _ _ _ => Iff.rfl) hfits
  rcases hs : x.stage? i with _ | s
  · rw [look_none hs]
    exact hvain fun b s _ hs' => by rw [hs] at hs'; cases hs'
  · obtain ⟨b, hb⟩ := h.exists_entry hs
    have hfits := h.fits i b s hb hs
    have hfailed : ∀ j, b.failed j → ∃ e, x.result?.outcome j = some (.error e) := by
      intro j hj
      obtain ⟨e, t, he⟩ := h.failed b (List.mem_of_getElem? hb) j hj
      exact ⟨e, by rw [Yields.outcome, he]; rfl⟩
    have hmade := h.made b (List.mem_of_getElem? hb)
    cases hfits with
    | pending hmaker hready htime =>
      subst hmaker
      have htimer := h.no_timer hs (by simp)
      have hmet : ∀ r, b.maker.seen x.result?.outcome = some r →
          Met x.result? b.made b.failed b.maker r x.now := fun r hr =>
        .of_seen h.shows hmade htime (fun _ => hfailed) hr
      have hpoll := b.maker.polled x.result?.outcome
      rw [look_pending hs]
      generalize b.maker.poll x.result?.outcome = progress at hpoll
      cases hpoll with
      | waits hseen =>
        refine hvain fun b' s hb' hs' => ?_
        rw [hb] at hb'
        rw [hs] at hs'
        cases hb'
        cases hs'
        exact .pending rfl (.inr hseen) htime
      | fails hseen => exact h.finish hs rfl hb (.fails (hmet _ hseen)) htimer
      | sleeps hseen hact => exact h.sleep hs rfl hb (hmet _ hseen) hact htimer
      | ends hseen hact hdelay =>
        have hmeans := (hmet _ hseen).means hact
        rw [hdelay, Nat.zero_min, Nat.add_zero] at hmeans
        exact h.finish hs rfl hb hmeans htimer
      | @gathers is pack hmaker hmany =>
        have hinputs : is.Nodup := by
          have := (h.inputs i b hb).1
          rwa [hmaker] at this
        exact h.gather hs rfl hb hmaker hmany (Gathering.sorts_start pack hinputs) htime htimer
    | gathering hmaker hmany hsorts hresult hready hlate htime =>
      rw [look_gathering hs]
      exact h.gather hs rfl hb hmaker hmany hsorts htime (h.no_timer hs (by simp))
    | sleeping hmet hact hr hdue =>
      rw [look_sleeping hs, hr]
      rcases hdue with ⟨-, hdue, htimer⟩ | ⟨hasleep, -⟩
      · exact h.finish hs rfl hb (hdue ▸ hmet.means hact) htimer
      · exact absurd (List.mem_cons_self ..) hasleep
    | done hmeans ht =>
      rw [look_done hs]
      refine hvain fun b' s hb' hs' => ?_
      rw [hb] at hb'
      rw [hs] at hs'
      cases hb'
      cases hs'
      exact .done hmeans ht

/-- The account does not depend on what else has changed. -/
theorem Account.of_same (h : Account book awake late x) (hnow : y.now = x.now)
    (htasks : y.tasks = x.tasks) (htimers : y.timers = x.timers) : Account book awake late y := by
  have hstage : y.stage? = x.stage? := by funext k; rw [stage?, stage?, htasks]
  have hreader : y.reader? = x.reader? := by funext k; rw [reader?, reader?, htasks]
  have hresult := result?_of_tasks htasks
  exact ⟨by rw [htasks]; exact h.length, h.awake_nodup, by rw [htasks]; exact h.awake_lt,
    by rw [htimers]; exact h.timers_nodup, by rw [htimers, hstage, hnow]; exact h.timers,
    by rw [hnow]; exact h.made, h.inputs, by rw [hreader]; exact h.reader, by rw [hresult]; exact h.failed,
    by rw [hstage, hnow, hresult, htimers]; exact h.fits⟩

/-- **What has been put off returns**, and is owed no longer. -/
theorem Account.resume (h : Account book x.ready (i :: late) x) :
    Account book (x.resume i).ready late (x.resume i) := by
  rcases resume_cases x i with ⟨g, hg, hy⟩ | ⟨hg, hy⟩
  · have htasks : (x.resume i).tasks = (x.setStage i (.gathering g.resume)).tasks := by rw [hy, wake_eq]
    have htimers : (x.resume i).timers = x.timers := by rw [hy, wake_eq]; rfl
    have hself := stage?_setStage_self (.gathering g.resume) hg
    have hstage : ∀ k, (x.resume i).stage? k = (x.setStage i (.gathering g.resume)).stage? k := by
      intro k
      rw [stage?, stage?, htasks]
    have hready : (x.resume i).ready = x.ready ∧ i ∈ x.ready ∨
        (x.resume i).ready = x.ready ++ [i] ∧ i ∉ x.ready := by
      rw [hy]
      rcases wake_ready (x.setStage i (.gathering g.resume)) i with ⟨hw, hin | hdone⟩ | ⟨hw, hnot⟩
      · exact .inl ⟨hw, hin⟩
      · exact absurd (result?_of_stage? hself) hdone
      · exact .inr ⟨hw, hnot⟩
    refine h.replace i (by rw [hy, wake_eq]; rfl) (by rw [htasks, length_setStage])
      (fun k => by rw [reader?, htasks]; exact reader?_setStage ..)
      ((result?_of_tasks htasks).trans (result?_setStage hg rfl))
      (fun k hk => (hstage k).trans (stage?_setStage_of_ne _ hk)) ?_ (fun _ => lt_of_stage? hg)
      (fun k hk => ?_) (fun k hk hk' => by simpa [hk] using hk') (by rw [htimers]; exact h.timers_nodup)
      (fun tm htm => ?_) (fun k _ d => by rw [htimers]) fun b s hb hs => ?_
    · rcases hready with ⟨hr, -⟩ | ⟨hr, hnot⟩ <;> rw [hr]
      · exact h.awake_nodup
      · exact List.concat_eq_append ▸ List.Nodup.concat hnot h.awake_nodup
    · rcases hready with ⟨hr, -⟩ | ⟨hr, -⟩ <;> simp [hr, hk]
    · rw [htimers] at htm
      exact .inl ⟨htm, fun hti => h.no_timer hg (by simp) tm.due (hti ▸ htm)⟩
    · rw [hstage, hself] at hs
      cases hs
      cases h.fits i b _ hb hg with
      | gathering hmaker hmany hsorts hresult _ _ htime =>
        refine .gathering hmaker hmany hsorts.resume hresult (fun _ => ?_) (fun hp => absurd rfl hp) htime
        rcases hready with ⟨hr, hin⟩ | ⟨hr, -⟩ <;> rw [hr]
        · exact hin
        · simp
  · rw [hy]
    refine h.replace i rfl rfl (fun _ => rfl) rfl (fun _ _ => rfl) h.awake_nodup (h.awake_lt i)
      (fun _ _ => Iff.rfl) (fun k hk hk' => by simpa [hk] using hk') h.timers_nodup
      (fun tm htm => .inr (h.timers tm htm)) (fun _ _ _ => Iff.rfl) fun b s hb hs => ?_
    cases h.fits i b s hb hs with
    | pending hmaker hready htime => exact .pending hmaker hready htime
    | gathering => exact absurd hs (hg _)
    | sleeping hmet hact hr hdue => exact .sleeping hmet hact hr hdue
    | done hmeans ht => exact .done hmeans ht

theorem Account.resumeAll (h : InOrder book x) : InOrder book x.resumeAll := by
  have hfold : ∀ (l : List Nat) (y : Executor ν), y.postponed = [] → Account book y.ready l y →
      InOrder book (l.foldl Executor.resume y) := by
    intro l
    induction l with
    | nil =>
      intro y hy h
      rw [List.foldl_nil, InOrder, hy]
      exact h
    | cons i l ih =>
      intro y hy h
      refine ih _ ?_ h.resume
      rcases resume_cases y i with ⟨g, -, hr⟩ | ⟨-, hr⟩
      · rw [hr, wake_eq]; exact hy
      · rw [hr]; exact hy
  exact hfold x.postponed { x with postponed := [] } rfl (h.of_same rfl rfl rfl)

/-- **A jump of the clock keeps the account** if nothing else can be done: who waits now could not have
had what it needs before the clock has come to its new time. -/
theorem Account.jump (h : Account book [] [] x) (hready : x.ready = []) {t : Nat} (hnow : x.now ≤ t)
    (hdue : ∀ tm ∈ x.timers, t ≤ tm.due) : Account book (x.jump t).ready [] (x.jump t) := by
  have hawake : ∀ k, k ∈ (x.jump t).ready ↔ ∃ tm ∈ x.timers, tm.due ≤ t ∧ tm.task = k := by
    intro k
    simp [Executor.jump, hready, and_assoc]
  have htimers : ∀ tm, tm ∈ (x.jump t).timers ↔ tm ∈ x.timers ∧ t < tm.due := by
    intro tm
    simp [Executor.jump]
  have hinj : ∀ tm ∈ x.timers, ∀ tm' ∈ x.timers, tm.task = tm'.task → tm = tm' := fun tm htm tm' htm' =>
    List.inj_on_of_nodup_map h.timers_nodup htm htm'
  -- what cannot be seen now could not be seen before the new time
  have htime : ∀ b : Entry ν, (b.made = x.now ∨ b.maker.seen (x.result?.before x.now) = none) →
      b.maker.seen x.result?.outcome = none →
      b.made = t ∨ b.maker.seen (x.result?.before t) = none := by
    intro b hold hnone
    rcases Nat.eq_or_lt_of_le hnow with rfl | hlt
    · exact hold
    · rw [Yields.before_of_shows h.shows hlt]
      exact .inr hnone
  refine ⟨h.length, ?_, fun k hk => ?_, ?_, fun tm htm => ?_, fun b hb => Nat.le_trans (h.made b hb) hnow,
    h.inputs, h.reader, h.failed, fun k b s hb hs => ?_⟩
  · have hsub : (x.jump t).ready = (x.timers.filter (·.due ≤ t)).map Timer.task := by
      simp [Executor.jump, hready]
    rw [hsub]
    exact h.timers_nodup.sublist (List.filter_sublist.map _)
  · obtain ⟨tm, htm, -, rfl⟩ := (hawake k).1 hk
    obtain ⟨⟨r, hr⟩, -⟩ := h.timers tm htm
    exact lt_of_stage? hr
  · exact h.timers_nodup.sublist (List.filter_sublist.map _)
  · obtain ⟨hold, hlt⟩ := (htimers tm).1 htm
    obtain ⟨hr, -, hbound⟩ := h.timers tm hold
    exact ⟨hr, Nat.le_of_lt hlt, Nat.le_trans hbound (Nat.add_le_add_right hnow _)⟩
  · have hs : x.stage? k = some s := hs
    show Fits t x.result? (x.jump t).ready [] (x.jump t).timers k b s
    have hseen := (h.fits k b s hb hs).seen_eq_none
    cases h.fits k b s hb hs with
    | pending hmaker hold hpast =>
      subst hmaker
      have hnone := hseen rfl (by simp)
      exact .pending rfl (.inr hnone) (htime b hpast hnone)
    | @gathering g hmaker hmany hsorts hresult hq hp hpast =>
      have hnone := hseen rfl (by simp)
      exact .gathering hmaker hmany hsorts hresult (fun hne => absurd (hq hne) List.not_mem_nil) hp
        (htime b hpast hnone)
    | @sleeping r vs l s hmet hact hr hold =>
      obtain ⟨-, htm⟩ := hold.resolve_left fun hawake => List.not_mem_nil hawake.1
      refine .sleeping hmet hact hr ?_
      rcases Nat.lt_or_ge t (s + min l.delay longestSleep) with hlt | hge
      · refine .inr ⟨fun hk => ?_, (htimers _).2 ⟨htm, hlt⟩⟩
        obtain ⟨tm, hold, hpast, htask⟩ := (hawake k).1 hk
        rw [hinj tm hold _ htm htask] at hpast
        exact Nat.not_lt.2 hpast hlt
      · refine .inl ⟨(hawake k).2 ⟨_, htm, hge, rfl⟩, Nat.le_antisymm hge (hdue _ htm), fun d hd => ?_⟩
        obtain ⟨hold, hpast⟩ := (htimers _).1 hd
        rw [hinj _ hold _ htm rfl] at hpast
        exact Nat.not_lt.2 hge hpast
    | done hmeans ht => exact .done hmeans (Nat.le_trans ht hnow)

/-- **Every move keeps the account.** -/
theorem Account.move (h : InOrder book x) (hxy : Move x y) : InOrder book y := by
  cases hxy with
  | @look i r hr =>
    have hpop : Account book (i :: r) x.postponed { x with ready := r } := by
      have := h.of_same (y := { x with ready := r }) rfl rfl rfl
      rwa [hr] at this
    exact Account.look (x := { x with ready := r }) hpop
  | resume => exact h.resumeAll
  | @jump t hidle hnow hdue =>
    simp only [isIdle, Bool.and_eq_true, List.isEmpty_iff] at hidle
    rw [InOrder, hidle.1, hidle.2] at h
    have hpostponed : (x.jump t).postponed = [] := hidle.2
    rw [InOrder, hpostponed]
    exact h.jump hidle.1 hnow hdue
  | credit n => exact h.of_same rfl rfl rfl

/-! ### New tasks -/

/-- The account of no tasks. -/
theorem inOrder_start : InOrder [] ({} : Executor ν) := by
  refine ⟨rfl, List.nodup_nil, ?_, List.nodup_nil, ?_, ?_, ?_, ?_, ?_, ?_⟩ <;> simp [reader?]

/-- What is written of a task that is made now. -/
def entry (x : Executor ν) (m : Maker ν) : Entry ν where
  maker := m
  made := x.now
  failed j := ∃ e, x.outcome? j = some (.error e)

/-- The tasks that a new task reads get it as their reader. -/
theorem foldl_read (l : List Nat) (x : Executor ν) (i : Nat) :
    let y := l.foldl (fun x input => x.read i input) x
    y = { x with tasks := y.tasks } ∧ y.tasks.length = x.tasks.length ∧ (∀ k, y.stage? k = x.stage? k) ∧
      ∀ k < x.tasks.length, y.reader? k = if k ∈ l then some i else x.reader? k := by
  induction l generalizing x with
  | nil => exact ⟨rfl, rfl, fun _ => rfl, fun _ _ => by simp⟩
  | cons j l ih =>
    obtain ⟨hsame, hlength, hstage, hreader⟩ := ih (x.read i j)
    have hlen : (x.read i j).tasks.length = x.tasks.length := by simp [read]
    have hstage' : ∀ k, (x.read i j).stage? k = x.stage? k := by
      intro k
      rw [stage?, stage?, read, List.getElem?_modify]
      rcases x.tasks[k]? with _ | t
      · rfl
      · split_ifs <;> rfl
    have hreader' : ∀ k < x.tasks.length,
        (x.read i j).reader? k = if k = j then some i else x.reader? k := by
      intro k hk
      rw [reader?, reader?, read, List.getElem?_modify, List.getElem?_eq_getElem hk]
      by_cases hkj : k = j
      · simp [hkj]
      · simp [hkj, Ne.symm hkj]
    refine ⟨by rw [List.foldl_cons, hsame]; rfl, hlength.trans hlen,
      fun k => (hstage k).trans (hstage' k), fun k hk => ?_⟩
    rw [List.foldl_cons, hreader k (hlen ▸ hk), hreader' k hk]
    by_cases hkj : k = j <;> simp [hkj]

/-- What a new task changes. -/
structure Made (x y : Executor ν) (m : Maker ν) : Prop where
  same : y = { x with tasks := y.tasks, ready := y.ready }
  length : y.tasks.length = x.tasks.length + 1
  stage_new : y.stage? x.tasks.length = some (.pending m)
  stage_old : ∀ k, k ≠ x.tasks.length → y.stage? k = x.stage? k
  reader : ∀ k, y.reader? k = if k ∈ m.inputs then some x.tasks.length else x.reader? k
  ready : y.ready = x.ready ++ [x.tasks.length]

theorem made_make {x : Executor ν} {m : Maker ν} (hm : ∀ j ∈ m.inputs, j < x.tasks.length) :
    Made x (x.make m).2 m := by
  obtain ⟨hsame, hlength, hstage, hreader⟩ := foldl_read m.inputs x x.tasks.length
  have hmake : (x.make m).2 =
      let y := m.inputs.foldl (fun z input => z.read x.tasks.length input) x
      { y with tasks := y.tasks ++ [⟨.pending m, none⟩], ready := y.ready ++ [x.tasks.length] } := rfl
  rw [hmake]
  generalize m.inputs.foldl (fun z input => z.read x.tasks.length input) x = y at hsame hlength hstage hreader
  dsimp only
  have hready : y.ready = x.ready := by rw [hsame]
  refine ⟨by rw [hsame], by simp [hlength], ?_, fun k hk => ?_, fun k => ?_, by rw [hready]⟩
  · rw [stage?, ← hlength]
    simp
  · rcases Nat.lt_or_ge k y.tasks.length with hlt | hge
    · rw [← hstage, stage?, stage?, List.getElem?_append_left hlt]
    · have hlen : (y.tasks ++ [Task.mk (.pending m) none]).length ≤ k := by
        simp only [List.length_append, List.length_singleton]
        omega
      rw [stage?, stage?, List.getElem?_eq_none hlen, List.getElem?_eq_none (hlength ▸ hge)]
  · rcases Nat.lt_or_ge k y.tasks.length with hlt | hge
    · rw [← hreader k (hlength ▸ hlt), reader?, reader?, List.getElem?_append_left hlt]
    · have hnone : x.reader? k = none := by
        rw [reader?, List.getElem?_eq_none (hlength ▸ hge)]
        rfl
      have hin : k ∉ m.inputs := fun hin => by
        have := hm k hin
        omega
      rw [if_neg hin, hnone, reader?, List.getElem?_append_right hge]
      rcases k - y.tasks.length with _ | d <;> rfl

/-- A new task has not yielded anything. -/
theorem Made.result? {x y : Executor ν} {m : Maker ν} (h : Made x y m) : y.result? = x.result? := by
  funext k
  rw [Executor.result?, Executor.result?]
  rcases Decidable.em (k = x.tasks.length) with rfl | hk
  · have hnone : x.stage? x.tasks.length = none := by
      rw [stage?, List.getElem?_eq_none (Nat.le_refl _)]
      rfl
    rw [h.stage_new, hnone]
    rfl
  · rw [h.stage_old k hk]

/-- **A new task keeps the account**, if nothing else reads its inputs. -/
theorem Account.make (h : InOrder book x) {m : Maker ν} (hnodup : m.inputs.Nodup)
    (hm : ∀ j ∈ m.inputs, j < x.tasks.length) (hfree : ∀ j ∈ m.inputs, x.reader? j = none) :
    InOrder (book ++ [x.entry m]) (x.make m).2 := by
  have hmade := made_make hm
  have hresult := hmade.result?
  generalize (x.make m).2 = y at hmade hresult
  have hnow : y.now = x.now := by rw [hmade.same]
  have htimers : y.timers = x.timers := by rw [hmade.same]
  have hpostponed : y.postponed = x.postponed := by rw [hmade.same]
  have hnew : ∀ k ∈ x.ready, k ≠ x.tasks.length := fun k hk => Nat.ne_of_lt (h.awake_lt k hk)
  have hentry : ∀ k b, (book ++ [x.entry m])[k]? = some b ↔
      book[k]? = some b ∨ k = x.tasks.length ∧ b = x.entry m := by
    intro k b
    rw [← h.length]
    rcases Nat.lt_trichotomy k book.length with hlt | rfl | hgt
    · simp [List.getElem?_append_left hlt, Nat.ne_of_lt hlt]
    · simp [eq_comm]
    · have hlen : (book ++ [x.entry m]).length ≤ k := by
        simp only [List.length_append, List.length_singleton]
        omega
      simp [List.getElem?_eq_none hlen, List.getElem?_eq_none (Nat.le_of_lt hgt), Nat.ne_of_gt hgt]
  refine ⟨by simp [h.length, hmade.length], ?_, ?_, by rw [htimers]; exact h.timers_nodup, ?_, ?_, ?_, ?_,
    ?_, ?_⟩
  · rw [hmade.ready]
    exact List.concat_eq_append ▸ List.Nodup.concat (fun hk => hnew _ hk rfl) h.awake_nodup
  · rw [hmade.ready, hmade.length]
    refine List.forall_mem_append.2 ⟨fun k hk => ?_, by simp⟩
    have := h.awake_lt k hk
    omega
  · intro tm htm
    rw [htimers] at htm
    obtain ⟨⟨r, hr⟩, hdue⟩ := h.timers tm htm
    rw [hnow, hmade.stage_old _ (Nat.ne_of_lt (lt_of_stage? hr))]
    exact ⟨⟨r, hr⟩, hdue⟩
  · rw [hnow]
    exact List.forall_mem_append.2 ⟨h.made, by simp [entry]⟩
  · intro k b hb
    rcases (hentry k b).1 hb with hb | ⟨rfl, rfl⟩
    · exact h.inputs k b hb
    · exact ⟨hnodup, hm⟩
  · intro j k
    rw [hmade.reader]
    constructor
    · intro hr
      split_ifs at hr with hj
      · cases hr
        exact ⟨_, (hentry _ _).2 (.inr ⟨rfl, rfl⟩), hj⟩
      · obtain ⟨b, hb, hin⟩ := (h.reader j k).1 hr
        exact ⟨b, (hentry k b).2 (.inl hb), hin⟩
    · rintro ⟨b, hb, hin⟩
      rcases (hentry k b).1 hb with hb | ⟨rfl, rfl⟩
      · have hr := (h.reader j k).2 ⟨b, hb, hin⟩
        have hj : j ∉ m.inputs := fun hj => by
          rw [hfree j hj] at hr
          cases hr
        rw [if_neg hj, hr]
      · exact if_pos hin
  · rw [hresult]
    refine List.forall_mem_append.2 ⟨h.failed, ?_⟩
    simp only [List.mem_singleton, forall_eq]
    rintro j ⟨e, he⟩
    rw [outcome?_eq] at he
    obtain ⟨⟨o, t⟩, hj, rfl⟩ := Option.map_eq_some_iff.1 he
    exact ⟨e, t, hj⟩
  · intro k b s hb hs
    rw [hnow, hresult, htimers, hpostponed, hmade.ready]
    rcases (hentry k b).1 hb with hb | ⟨rfl, rfl⟩
    · have hk : k ≠ x.tasks.length := by
        have := (List.getElem?_eq_some_iff.1 hb).1
        rw [h.length] at this
        omega
      rw [hmade.stage_old k hk] at hs
      exact (h.fits k b s hb hs).frame (fun _ _ => rfl) (by simp [hk]) id fun _ => Iff.rfl
    · rw [hmade.stage_new] at hs
      cases hs
      exact .pending rfl (.inl (by simp)) (.inl rfl)

theorem grows_make {x : Executor ν} {m : Maker ν} (hm : ∀ j ∈ m.inputs, j < x.tasks.length) :
    Grows x (x.make m).2 := by
  have hmade := made_make hm
  have hnow : (x.make m).2.now = x.now := by rw [hmade.same]
  exact .of_result (by rw [hmade.length]; omega) (Nat.le_of_eq hnow.symm) hmade.result?

end Account

end Executor

end Handoff.Deferred
