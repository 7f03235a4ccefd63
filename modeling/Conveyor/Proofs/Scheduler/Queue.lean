import Conveyor.Proofs.Scheduler.Aftermath

/-!
# Conveyor.Proofs.Scheduler.Queue

What a queued stage waits for.

A pass starts the queued stages in the order of the graph, as long as a worker is free. It leaves a
stage behind only for its concurrency group. While the pass goes on nothing lands, so the command
that holds the group stays in flight, also when a stage that cannot be prepared gives its own group
back and takes others along. So whatever is started, the queued stages before it are held up by
their groups, and when the driver waits, all of them are, unless every worker is busy.

* `Detained`          — the group of a stage is held by another stage with a command in flight.
* `Swept`             — what a pass has found of the stages that it has left behind.
* `Reachable.swept`   — it holds at every reachable point.
* `queued_stages_are_detained` — where the driver waits nothing is left that could be gated or
                        started, and nothing is started past a stage that could be.
-/

namespace Conveyor
namespace Scheduler

variable {u : Setup} {env : Environment} {s s' : State} {i j : Nat} {stage : Stage}
  {o : Outcome} {x y : Point} {group : String}

/-! ## Stages that wait for their group -/

/-- The stage has this concurrency group, another stage holds it, and the command of that stage is
in flight. -/
structure Detained (u : Setup) (s : State) (i : Nat) (group : String) : Prop where
  wants : ∃ stage, u.stage? i = some stage ∧ stage.concurrencyGroup = some group
  held : ∃ k ∈ s.flights, k ≠ i ∧ s.locks.holder group = some k

theorem Titled.stage_of_status? (h : Titled u s) {status : Status}
    (hs : s.run.status? i = some status) : ∃ stage, u.stage? i = some stage := by
  obtain ⟨o, ho, _⟩ := outcome?_of_status? hs
  obtain ⟨stage, hstage, _⟩ := h.named i o ho
  exact ⟨stage, hstage⟩

theorem detained_of_not_startable (htitled : Titled u s) (ht : Traffic u s)
    (hq : s.run.status? i = some .queued) (h : ¬ Startable u s i) :
    ∃ group, Detained u s i group := by
  obtain ⟨stage, hstage⟩ := htitled.stage_of_status? hq
  cases hgroup : stage.concurrencyGroup with
  | none => exact absurd ⟨hq, stage, hstage, by simp only [lock?, hgroup]; rfl⟩ h
  | some group =>
    cases hlock : s.locks.acquire? group i with
    | some locks => exact absurd ⟨hq, stage, hstage, by simp only [lock?, hgroup, hlock]; rfl⟩ h
    | none =>
      obtain ⟨k, hholder, hne⟩ := Locks.acquire?_eq_none_iff.1 hlock
      have hflying := ((ht.locked group k).1 hholder).1
      exact ⟨group, ⟨stage, hstage, hgroup⟩, k, hflying, hne, hholder⟩

theorem Detained.not_startable (h : Detained u s j group) (ht : Traffic u s)
    (hstage : u.stage? i = some stage) (hgroup : stage.concurrencyGroup = some group) :
    ¬ Startable u s i := by
  rintro ⟨hq, stage', hstage', hfree⟩
  cases hstage.symm.trans hstage'
  obtain ⟨k, hflying, _, hholder⟩ := h.held
  obtain ⟨o, ho, hs⟩ := outcome?_of_status? hq
  have hne : k ≠ i := by
    rintro rfl
    exact ht.not_mem_flights ho (by rw [hs]; rfl) hflying
  have hrefused : s.locks.acquire? group i = none :=
    Locks.acquire?_eq_none_iff.2 ⟨k, hholder, hne⟩
  simp only [lock?, hgroup, hrefused] at hfree
  cases hfree

theorem Detained.keep (h : Detained u s i group) (ht : Traffic u s) (ht' : Traffic u s')
    (hsub : ∀ k ∈ s.flights, k ∈ s'.flights) : Detained u s' i group := by
  obtain ⟨k, hflying, hne, hholder⟩ := h.held
  have hkept := (ht'.locked group k).2 ⟨hsub k hflying, ((ht.locked group k).1 hholder).2⟩
  exact ⟨h.wants, k, hsub k hflying, hne, hkept⟩

/-! ## One stage of a pass -/

/-- A stage that is queued after another one was marked was queued before, if the mark is not
that of a queued stage. -/
theorem queued_of_setOutcome {r : Run} {o' : Outcome} (ho : r.outcome? i = some o)
    (hne : o'.status ≠ .queued) (hq : (r.setOutcome i o').status? j = some .queued) :
    r.status? j = some .queued ∧ j ≠ i := by
  obtain ⟨a, ha, hs⟩ := outcome?_of_status? hq
  obtain ⟨ha, hji⟩ := Run.outcome?_of_setOutcome ho (hs ▸ hne) ha rfl
  exact ⟨by rw [Run.status?, ha, Option.map_some, hs], hji⟩

theorem Aftermath.queued {cause : Stage} (h : Aftermath u cause s s') (ht : Titled u s)
    (ht' : Titled u s') (hq : s'.run.status? j = some .queued) :
    s.run.status? j = some .queued := by
  obtain ⟨o', ho', hs⟩ := outcome?_of_status? hq
  obtain ⟨stage, hstage, _⟩ := ht'.named j o' ho'
  obtain ⟨o, ho⟩ := ht.present j stage hstage
  rcases h.cases hstage ho with ⟨_, hkept⟩ | ⟨_, hskipped⟩
  · rw [Run.status?, ho, ← hkept, ho', Option.map_some, hs]
  · rw [ho'] at hskipped
    cases hskipped
    cases hs

/-- Starting a stage queues nothing. If the stage itself is still queued afterwards, it could not
be started. -/
theorem queued_of_dispatchOne (hu : u.Accepted) (ht : Titled u s) (ht' : Titled u s') {p : Bool}
    (h : dispatchOne u s i = .ok (s', p)) (hq : s'.run.status? j = some .queued) :
    s.run.status? j = some .queued ∧ (j = i → s' = s ∧ ¬ Startable u s i) := by
  by_cases hd : Startable u s i
  · obtain ⟨o, ho, hs⟩ := outcome?_of_status? hd.queued
    obtain ⟨stage, hstage, hfree⟩ := hd.free
    obtain ⟨locks, hlock⟩ := Option.isSome_iff_exists.1 hfree
    have hopen : o.status.isTerminal = false := by rw [hs]; rfl
    have hother : s.run.status? j = some .queued ∧ j ≠ i := by
      simp only [dispatchOne, hd.queued, hstage, hlock] at h
      split at h
      · simp only [spawn_ok ho hs] at h
        cases h
        exact queued_of_setOutcome ho (by simp) hq
      · rename_i e hprep
        have ho' : ({ s with locks := locks.release i } : State).run.outcome? i = some o := ho
        cases hfail : fail u { s with locks := locks.release i } i e with
        | error e => rw [hfail] at h; cases h
        | ok t =>
          rw [hfail] at h
          cases h
          have hm : Move u freeEnvironment s
            ({ s with locks := locks.release i }.conclude i (o.fail e s.run.clock)) :=
            .unready ho hstage hs hlock hprep
          rcases fail_cases hu ho' hstage hopen hfail with ⟨_, rfl⟩ | ⟨_, hafter⟩
          · exact queued_of_setOutcome ho (by simp) hq
          · exact queued_of_setOutcome ho (by simp) (hafter.queued (ht.move hm) ht' hq)
    exact ⟨hother.1, fun hji => absurd hji hother.2⟩
  · rw [dispatchOne_idle hd] at h
    cases h
    exact ⟨hq, fun _ => ⟨rfl, hd⟩⟩

/-! ## Passes -/

/-- Of the stages that a pass has left behind, those that are queued wait for their groups. -/
def Swept (u : Setup) (x : Point) : Prop :=
  match x.place with
  | .dispatching (i :: rest) _ => ∃ visited, u.order = visited ++ i :: rest ∧
      ∀ j ∈ visited, x.state.run.status? j = some .queued → ∃ group, Detained u x.state j group
  | _ => True

theorem Dispatched.flights_subset {p : Bool} (h : Dispatched u env s i s' p) :
    ∀ k ∈ s.flights, k ∈ s'.flights := by
  intro k hk
  rcases h.launched with hstill | hlaunch
  · rw [hstill.flights]
    exact hk
  · obtain ⟨_, _, _, _, _, rfl⟩ := hlaunch
    rw [State.flights_launch]
    exact List.mem_append_left _ hk

theorem Swept.step (hu : u.Accepted) (hx : Reachable u env x) (hswept : Swept u x)
    (h : Step u env x y) : Swept u y := by
  have hy : Reachable u env y := hx.tail h
  cases h with
  | begin | gate | full | again | settled | join | cancelEarly | cancel => trivial
  | gated =>
    generalize horder : u.order = l
    cases l with
    | nil => trivial
    | cons i rest => exact ⟨[], horder, nofun⟩
  | @dispatch i rest p b s s' hroom h =>
    cases rest with
    | nil => trivial
    | cons next rest =>
      obtain ⟨visited, horder, hwait⟩ := hswept
      refine ⟨visited ++ [i], by rw [horder, List.append_assoc, List.singleton_append], ?_⟩
      intro j hj hq
      obtain ⟨hqueued, hself⟩ := queued_of_dispatchOne hu hx.titled hy.titled h hq
      rcases List.mem_append.1 hj with hj | hj
      · obtain ⟨group, hdetained⟩ := hwait j hj hqueued
        have hsub := (Dispatched.of_dispatchOne env hroom h).flights_subset
        exact ⟨group, hdetained.keep hx.traffic hy.traffic hsub⟩
      · obtain ⟨rfl, hstuck⟩ := hself (List.mem_singleton.1 hj)
        obtain rfl := List.mem_singleton.1 hj
        exact detained_of_not_startable hy.titled hy.traffic hq hstuck

theorem Reachable.swept (hu : u.Accepted) (h : Reachable u env x) : Swept u x := by
  induction h with
  | refl => trivial
  | tail hx hstep ih => exact ih.step hu hx hstep

/-- A stage is started where the pass has come to it, and when it can be. -/
theorem Step.startable (h : Step u env x y) (hi : i ∈ y.state.starts)
    (hnew : i ∉ x.state.starts) :
    (∃ rest p, x.place = .dispatching (i :: rest) p) ∧ Startable u x.state i := by
  have hchanged : y.state.starts ≠ x.state.starts := fun hsame => hnew (hsame ▸ hi)
  cases h with
  | begin | gated | full | again | settled => exact absurd rfl hchanged
  | gate h => exact absurd (Gated.of_gateOne env h).still.starts hchanged
  | @dispatch k rest p b s s' hroom h =>
    by_cases hd : Startable u s k
    · rcases (Dispatched.of_dispatchOne env hroom h).launched with hstill | hlaunch
      · exact absurd hstill.starts hchanged
      · obtain ⟨_, _, _, _, _, rfl⟩ := hlaunch
        rcases List.mem_cons.1 hi with rfl | hi
        · exact ⟨⟨rest, p, rfl⟩, hd⟩
        · exact absurd hi hnew
    · rw [dispatchOne_idle hd] at h
      cases h
      exact absurd rfl hchanged
  | @join c result now s s' hc hans hnow h =>
    have hc' : c ∈ (s.wakeAt now).inFlight := hc
    exact absurd (Completed.of_complete hc' hans h).still.starts hchanged
  | @cancelEarly now s s' henv hc hnow h | @cancel now s s' henv hc _ hnow h =>
    have hc' : (s.wakeAt now).run.cancelled = false := hc
    exact absurd (Withdrawn.of_cancel env hc' h).still.starts hchanged

/-! ## Points where the driver waits -/

/-- Where the driver waits, a stage whose gate was not asked has a dependency that has not
ended. -/
theorem Reachable.awaits (hu : u.Accepted) (h : Reachable u env ⟨.waiting, s⟩)
    (hp : s.run.status? i = some .pending) :
    ∃ d o, u.graph.Needs i d ∧ s.run.outcome? d = some o ∧ o.status.isTerminal = false := by
  have ht : Titled u s := h.titled
  obtain ⟨stage, hstage⟩ := ht.stage_of_status? hp
  have hblocked : ¬ (s.run.dependencies? i).isSome = true := fun hknown =>
    h.quiet.1 i (hu.mem_order hstage) ⟨hp, hknown, by rw [hstage]; rfl⟩
  rw [Run.dependencies?_isSome] at hblocked
  push Not at hblocked
  obtain ⟨d, hd, hopen⟩ := hblocked
  rw [ht.graph, Graph.mem_predecessorsOf] at hd
  have hlt := hu.describes.lt_of_needed hd
  rw [hu.describes.size_eq] at hlt
  obtain ⟨o, ho⟩ := ht.present d _ (List.getElem?_eq_getElem hlt)
  exact ⟨d, o, hd, ho, Bool.eq_false_iff.2 (hopen o ho)⟩

/-- Where the driver waits, every worker is busy or every queued stage waits for its group. -/
theorem Reachable.conserves (hu : u.Accepted) (h : Reachable u env ⟨.waiting, s⟩) :
    s.inFlight.length = u.workers ∨
      ∀ i, s.run.status? i = some .queued → ∃ group, Detained u s i group := by
  have ht : Traffic u s := h.traffic
  have hstaffed : s.inFlight.length ≤ u.workers := by simpa [State.flights] using ht.staffed
  refine h.quiet.2.symm.imp (Nat.le_antisymm hstaffed) ?_
  intro hstart i hq
  obtain ⟨stage, hstage⟩ := h.titled.stage_of_status? hq
  exact detained_of_not_startable h.titled ht hq (hstart i (hu.mem_order hstage))

/-- What comes before a stage in a list comes before any place where the stage stands. -/
theorem mem_of_idxOf_lt {l visited rest : List Nat} (h : l = visited ++ i :: rest)
    (hj : l.idxOf j < l.idxOf i) : j ∈ visited := by
  have hvisited : visited <+: l := ⟨i :: rest, h.symm⟩
  have hnext : visited ++ [i] <+: l := ⟨rest, by simp [h]⟩
  have hi : l.idxOf i < (visited ++ [i]).length :=
    (hnext.mem_iff_idxOf_lt_length i).1 (by simp)
  rw [List.length_append, List.length_singleton] at hi
  exact (hvisited.mem_iff_idxOf_lt_length j).2 (by omega)

/-- Wherever the driver waits, every stage whose gate was not asked has a dependency that has not
ended, and either every worker is busy or every queued stage waits for its group, which another
stage with a command in flight holds. And whatever is started, every queued stage before it in the
order of the graph waits for its group at that moment, which is not that of the stage that is
started: so the stages that wait for one group are served in this order. -/
theorem queued_stages_are_detained (hu : u.Accepted) :
    (∀ s, Reachable u env ⟨.waiting, s⟩ →
      (∀ i, s.run.status? i = some .pending → ∃ d o, u.graph.Needs i d ∧
        s.run.outcome? d = some o ∧ o.status.isTerminal = false) ∧
      (s.inFlight.length = workers u.maxParallel u.pipeline.settings u.hostWorkers ∨
        ∀ i, s.run.status? i = some .queued → ∃ group, Detained u s i group)) ∧
    ∀ x y i, Reachable u env x → Step u env x y → i ∈ y.state.starts → i ∉ x.state.starts →
      ∀ j, x.state.run.status? j = some .queued → u.order.idxOf j < u.order.idxOf i →
        ∃ group, Detained u x.state j group ∧
          ∀ stage, u.stage? i = some stage → stage.concurrencyGroup ≠ some group := by
  refine ⟨fun s hs => ⟨fun i => hs.awaits hu, hs.conserves hu⟩, ?_⟩
  intro x y i hx hxy hi hnew j hq hbefore
  obtain ⟨⟨rest, p, hplace⟩, hstartable⟩ := hxy.startable hi hnew
  obtain ⟨place, s⟩ := x
  obtain rfl : place = .dispatching (i :: rest) p := hplace
  obtain ⟨visited, horder, hwait⟩ := hx.swept hu
  have hj : j ∈ visited := mem_of_idxOf_lt horder hbefore
  obtain ⟨group, hdetained⟩ := hwait j hj hq
  exact ⟨group, hdetained, fun stage hstage hgroup =>
    hdetained.not_startable hx.traffic hstage hgroup hstartable⟩

/-- Two stages that need the database, one that does not, and one behind that. -/
def migrationSetup : Setup where
  pipeline :=
    { name := "p"
      stages :=
        [ { name := "migrate", run := .script "migrate", concurrencyGroup := some "database" },
          { name := "seed", run := .script "seed", concurrencyGroup := some "database" },
          { name := "lint", run := .script "lint" },
          { name := "package", run := .script "pack", dependsOn := ["lint"] } ] }
  graph :=
    { names := ["migrate", "seed", "lint", "package"]
      places := .ofList [("migrate", 0), ("seed", 1), ("lint", 2), ("package", 3)]
      edges := [(2, 3)]
      predecessors := [[], [], [], [2]]
      successors := [[], [], [3], []] }
  trigger := default
  provider := fun _ => none
  maxParallel := some 3
  hostWorkers := 4
  runId := "r"

/-- The third stage is started past the second one, which waits for its group then and goes on
waiting, with a worker left, when the driver waits. -/
theorem queued_stages_are_detained_migration : ∃ x y s,
    Reachable migrationSetup freeEnvironment x ∧ Step migrationSetup freeEnvironment x y ∧
      2 ∈ y.state.starts ∧ 2 ∉ x.state.starts ∧
      (∃ group, Detained migrationSetup x.state 1 group ∧
        ∀ stage, migrationSetup.stage? 2 = some stage → stage.concurrencyGroup ≠ some group) ∧
      Reachable migrationSetup freeEnvironment ⟨.waiting, s⟩ ∧
      s.inFlight.length < migrationSetup.workers ∧
      (∃ group, Detained migrationSetup s 1 group) ∧
      ∃ d o, migrationSetup.graph.Needs 3 d ∧ s.run.outcome? d = some o ∧
        o.status.isTerminal = false := by
  let gated := (left (gateAll migrationSetup migrationSetup.order (State.start migrationSetup))).1
  let first := (left (dispatchOne migrationSetup gated 0)).1
  let t := (left (dispatchOne migrationSetup first 2)).1
  let s := left (settle migrationSetup (State.start migrationSetup))
  have hu : migrationSetup.Accepted := ⟨rfl⟩
  have horder : migrationSetup.order = [0, 1, 2, 3] := by decide +kernel
  have hgated : gateAll migrationSetup migrationSetup.order (State.start migrationSetup) =
      .ok (gated, true) := eq_ok_left_pair (by decide +kernel) (by decide +kernel)
  have h₁ : Reachable migrationSetup freeEnvironment ⟨.dispatching [0, 1, 2, 3] true, gated⟩ := by
    rw [← horder]
    exact (Relation.ReflTransGen.head .begin (steps_of_gateAll hgated)).tail .gated
  have hfirst : dispatchOne migrationSetup gated 0 = .ok (first, true) :=
    eq_ok_left_pair (by decide +kernel) (by decide +kernel)
  have h₂ : Reachable migrationSetup freeEnvironment ⟨.dispatching [1, 2, 3] true, first⟩ :=
    h₁.tail (.dispatch (by decide +kernel) hfirst)
  have hroom : first.inFlight.length < migrationSetup.workers := by decide +kernel
  have hsecond : dispatchOne migrationSetup first 1 = .ok (first, false) := by
    refine dispatchOne_idle ?_
    rintro ⟨_, stage, hstage, hfree⟩
    cases hstage
    exact absurd hfree (by decide +kernel)
  have h₃ : Reachable migrationSetup freeEnvironment ⟨.dispatching [2, 3] true, first⟩ :=
    h₂.tail (.dispatch hroom hsecond)
  have hlaunched : dispatchOne migrationSetup first 2 = .ok (t, true) :=
    eq_ok_left_pair (by decide +kernel) (by decide +kernel)
  have hnew : 2 ∈ t.starts ∧ 2 ∉ first.starts := by decide +kernel
  have hqueued : first.run.status? 1 = some .queued := by decide +kernel
  have hbefore : migrationSetup.order.idxOf 1 < migrationSetup.order.idxOf 2 := by
    rw [horder]
    decide
  have hs : Reachable migrationSetup freeEnvironment ⟨.waiting, s⟩ :=
    Reachable.settled .refl (eq_ok_left (by decide +kernel))
  have hfree : s.inFlight.length < migrationSetup.workers := by decide +kernel
  have hstatus : s.run.status? 1 = some .queued ∧ s.run.status? 3 = some .pending := by
    decide +kernel
  clear_value first t s
  obtain ⟨hwaits, hstarts⟩ := @queued_stages_are_detained migrationSetup freeEnvironment hu
  have hstep : Step migrationSetup freeEnvironment ⟨.dispatching [2, 3] true, first⟩
    ⟨.dispatching [3] true, t⟩ := .dispatch hroom hlaunched
  have hpast := hstarts _ _ 2 h₃ hstep hnew.1 hnew.2 1 hqueued hbefore
  obtain ⟨hpending, hbusy | hdetained⟩ := hwaits s hs
  · exact absurd hbusy (Nat.ne_of_lt hfree)
  · exact ⟨_, _, s, h₃, hstep, hnew.1, hnew.2, hpast, hs, hfree, hdetained 1 hstatus.1,
      hpending 3 hstatus.2⟩

end Scheduler
end Conveyor
