import Conveyor.Proofs.Scheduler.Aftermath
import Conveyor.Proofs.Scheduler.Starts

/-!
# Conveyor.Proofs.Scheduler.FailFast

What the failure of a stage does to the others, at once and for the rest of the run.

A stage may fail while the stages are gated, while they are started, and when its command is done.
Wherever that is, the step that records the failure takes along everything that falls with the
stage, and the round goes on with what is left. What was skipped cannot be started any more. With
a fail-fast for the whole run, whatever has not ended after the failure runs always, so nothing
else is started later.

* `Turn.failed`     — the step that fails a stage does nothing to the others but through it.
* `Turn.upright`    — a waiting stage that runs always does not fall.
* `Steps.spared`    — what is started after a failure, if the whole run fails fast, runs always.
* `fail_fast_exact` — a failure ends exactly the stages that fall with it, and for good.
-/

namespace Conveyor
namespace Scheduler

variable {u : Setup} {env : Environment} {s s' : State} {i j f : Nat} {stage cause : Stage}
  {o o' : Outcome} {x y z : Point}

/-! ## What a turn fails, and what it spares -/

/-- The step that fails a stage changes no other stage if this one may fail. If it must not, the
step is what follows from its failure. -/
theorem Turn.failed (h : Turn u s s') (ht : Titled u s) (hcause : u.stage? f = some cause)
    (hbefore : s.run.status? f ≠ some .failed) (hafter : s'.run.status? f = some .failed) :
    cause.allowFailure = true ∧ AllBut f s s' ∨
      cause.allowFailure = false ∧ ∃ b, AllBut f s b ∧ Aftermath u cause b s' := by
  obtain ⟨o, ho⟩ := ht.present f cause hcause
  obtain ⟨o', ho', hs'⟩ := outcome?_of_status? hafter
  cases h.change hcause ho ho' with
  | none =>
    rw [Run.status?, ho, Option.map_some, hs'] at hbefore
    exact absurd rfl hbefore
  | alone hbut _ hown =>
    obtain ⟨stage, hstage, hallow⟩ := hown.excused hs'
    rw [hcause] at hstage
    cases hstage
    exact .inl ⟨hallow, hbut⟩
  | fail hallow hbut _ _ hafter => exact .inr ⟨hallow, _, hbut, hafter⟩
  | launch | fall | withdraw => cases hs'

theorem Falls.ne_always {status : Status} (h : Falls u cause stage status)
    (hs : status.waits = true) : stage.onFailure ≠ .always := by
  rcases h with ⟨_, _, hfall⟩ | ⟨_, habort⟩
  · simp only [fallsWith, Bool.and_eq_true, decide_eq_true_eq] at hfall
    exact hfall.2
  · have hne : status ≠ .running := by
      rintro rfl
      cases hs
    simp only [isAborted, hne, ne_eq, not_false_eq_true, decide_true, Bool.true_and,
      Bool.and_eq_true, Bool.not_eq_true', decide_eq_false_iff_not] at habort
    exact habort.2

/-- No step takes a waiting stage along that runs always. -/
theorem Turn.upright (h : Turn u s s') (hstage : u.stage? j = some stage)
    (halways : stage.onFailure = .always) (ho : s.run.outcome? j = some o)
    (hs : o.status.waits = true) (ho' : s'.run.outcome? j = some o') (hs' : o'.status = .skipped)
    (name : String) : o'.skipReason ≠ some (.failFast name) := by
  cases h.change hstage ho ho' with
  | none =>
    rw [hs'] at hs
    cases hs
  | alone _ _ hown => exact hown.upright hs' name
  | fall _ _ _ hfall => exact absurd halways (hfall.ne_always hs)
  | launch => cases hs'
  | withdraw => nofun
  | fail _ _ _ hfailed =>
    rw [hfailed] at hs'
    cases hs'

/-! ## What is started later -/

theorem Move.starts_of_departed (h : Move u env s s') (ho : s.run.outcome? i = some o)
    (hs : o.status.waits = false) (hi : i ∈ s'.starts) : i ∈ s.starts := by
  rcases h.starts with hsame | ⟨j, a, ha, hqueued, hstarts⟩
  · exact hsame ▸ hi
  · rw [hstarts] at hi
    rcases List.mem_cons.1 hi with rfl | hi
    · rw [ho] at ha
      cases ha
      rw [hqueued] at hs
      cases hs
    · exact hi

theorem Moves.starts_of_departed (h : Moves u env s s') (ho : s.run.outcome? i = some o)
    (hs : o.status.waits = false) (hi : i ∈ s'.starts) : i ∈ s.starts := by
  induction h using Relation.ReflTransGen.head_induction_on generalizing o with
  | refl => exact hi
  | head hm _ ih =>
    obtain ⟨o', ho', hs'⟩ := hm.departed ho hs
    exact hm.starts_of_departed ho hs (ih ho' hs')

theorem Moves.departed (h : Moves u env s s') (ho : s.run.outcome? i = some o)
    (hs : o.status.waits = false) :
    ∃ o', s'.run.outcome? i = some o' ∧ o'.status.waits = false := by
  induction h with
  | refl => exact ⟨o, ho, hs⟩
  | tail _ hm ih =>
    obtain ⟨a, ha, has⟩ := ih
    exact hm.departed ha has

theorem Moves.hasFailed (h : Moves u env s s') (hc : HasFailed u s cause) :
    HasFailed u s' cause := by
  induction h with
  | refl => exact hc
  | tail _ hm ih => exact hm.hasFailed ih

/-- If the whole run fails fast, whatever is started after a failure runs always. -/
theorem Steps.spared (hu : u.Accepted) (hy : Reachable u env y)
    (hff : u.pipeline.settings.failFast = true) (hfailed : HasFailed u y.state cause)
    (h : Steps u env y z) (hstage : u.stage? i = some stage) (hi : i ∈ z.state.starts) :
    i ∈ y.state.starts ∨ stage.onFailure = .always := by
  induction h with
  | refl => exact .inl hi
  | @tail z z' hz hstep ih =>
    by_cases hold : i ∈ z.state.starts
    · exact ih hold
    · obtain ⟨o, ho, hs⟩ := hstep.started (hstep.starts_eq hi hold)
      have hreach : Reachable u env z := Relation.ReflTransGen.trans hy hz
      have hspared := hreach.guarded hff cause ((moves_of_steps hz).hasFailed hfailed)
      exact .inr (hspared i (hu.mem_order hstage) stage o hstage ho (by rw [hs]; rfl))

/-! ## Failing fast -/

/-- What the failure of a stage that must not fail comes to, from the step that records it to the
end of the run. -/
structure FailsFast (u : Setup) (env : Environment) (f : Nat) (cause : Stage) (x y : Point) :
    Prop where
  /-- The waiting stages of its group are skipped, with the failed stage as the reason. -/
  taken : ∀ j stage o, j ≠ f → u.stage? j = some stage → Grouped u j cause →
    stage.onFailure ≠ .always → x.state.run.outcome? j = some o → o.status.waits = true →
      y.state.run.outcome? j = some (o.skip (.failFast cause.name) y.state.run.clock)
  /-- No stage of its group is started any more. -/
  barred : ∀ j stage z, u.stage? j = some stage → Grouped u j cause →
    stage.onFailure ≠ .always → Steps u env y z → j ∈ z.state.starts → j ∈ x.state.starts
  /-- Unless the whole run fails fast, a stage that runs, has another group or runs always is left
  alone, and its command with it. -/
  untouched : u.pipeline.settings.failFast = false → ∀ j stage o, j ≠ f →
    u.stage? j = some stage → x.state.run.outcome? j = some o →
    o.status = .running ∨ ¬ Grouped u j cause ∨ stage.onFailure = .always →
      y.state.run.outcome? j = some o ∧
        ∀ c ∈ x.state.inFlight, c.stage = j → c ∈ y.state.inFlight
  /-- If it does, whatever is started later runs always. -/
  spared : u.pipeline.settings.failFast = true → ∀ k stage z, u.stage? k = some stage →
    Steps u env y z → k ∈ z.state.starts → k ∈ x.state.starts ∨ stage.onFailure = .always

theorem Falls.of_grouped {status : Status} (hstage : u.stage? j = some stage)
    (hgroup : Grouped u j cause) (hpolicy : stage.onFailure ≠ .always)
    (hs : status.waits = true) : Falls u cause stage status := by
  obtain ⟨stage', group, hstage', hown, hcause⟩ := hgroup
  rw [hstage] at hstage'
  cases hstage'
  refine .inl ⟨group, hcause, ?_⟩
  cases status with
  | pending | queued => simp [fallsWith, hown, hpolicy]
  | running | succeeded | failed | skipped => cases hs

theorem not_falls_of_quiet {status : Status} (hff : u.pipeline.settings.failFast = false)
    (hstage : u.stage? j = some stage)
    (hwhy : status = .running ∨ ¬ Grouped u j cause ∨ stage.onFailure = .always) :
    ¬ Falls u cause stage status := by
  intro hfall
  have hwaits := hfall.waits hff
  rcases hwhy with rfl | hother | halways
  · cases hwaits
  · rcases hfall.cases hstage with hon | ⟨hgroup, _⟩
    · rw [hff] at hon
      cases hon
    · exact hother hgroup
  · exact hfall.ne_always hwaits halways

theorem failsFast_of_aftermath (hu : u.Accepted) (hx : Reachable u env x) (hxy : Step u env x y)
    (hcause : u.stage? f = some cause) (hfailed : y.state.run.status? f = some .failed)
    (hallow : cause.allowFailure = false) (hbut : AllBut f x.state s)
    (hafter : Aftermath u cause s y.state) : FailsFast u env f cause x y := by
  have hstarts : y.state.starts = x.state.starts := hafter.starts.trans hbut.starts
  have htaken : ∀ j stage o, j ≠ f → u.stage? j = some stage → Grouped u j cause →
      stage.onFailure ≠ .always → x.state.run.outcome? j = some o → o.status.waits = true →
      y.state.run.outcome? j = some (o.skip (.failFast cause.name) y.state.run.clock) := by
    intro j stage o hne hstage hgroup hpolicy ho hs
    rw [hafter.clock]
    exact hafter.taken j stage o hstage ((hbut.others j hne).trans ho)
      (.of_grouped hstage hgroup hpolicy hs)
  obtain ⟨o', ho', hs'⟩ := outcome?_of_status? hfailed
  refine ⟨htaken, ?_, ?_, ?_⟩
  · intro j stage z hstage hgroup hpolicy hz hj
    obtain ⟨o, ho⟩ := hx.titled.present j stage hstage
    -- whether it waited or not, the stage does not wait any more
    have hdeparted : ∃ a, y.state.run.outcome? j = some a ∧ a.status.waits = false := by
      cases hs : o.status.waits with
      | false => exact (moves_of_step hxy).departed ho hs
      | true =>
        by_cases hne : j = f
        · exact ⟨o', hne ▸ ho', by rw [hs']; rfl⟩
        · exact ⟨_, htaken j stage o hne hstage hgroup hpolicy ho hs, rfl⟩
    obtain ⟨a, ha, has⟩ := hdeparted
    exact hstarts ▸ (moves_of_steps hz).starts_of_departed ha has hj
  · intro hff j stage o hne hstage ho hwhy
    refine ⟨hafter.spared j stage o hstage ((hbut.others j hne).trans ho)
      (not_falls_of_quiet hff hstage hwhy), ?_⟩
    rintro c hc rfl
    rw [(hafter.quiet hff).1, hbut.inFlight]
    exact List.mem_filter.2 ⟨hc, decide_eq_true hne⟩
  · intro hff k stage z hstage hz hk
    have hcaused : HasFailed u y.state cause := ⟨f, o', hcause, ho', hs', hallow⟩
    exact hstarts ▸ hz.spared hu (hx.tail hxy) hff hcaused hstage hk

/-- The step that fails a stage leaves every other stage alone if this one may fail, and fails
fast if it must not. And in no step does a waiting stage fall that runs always. -/
theorem fail_fast_exact (hu : u.Accepted) (hx : Reachable u env x) (hxy : Step u env x y) :
    (∀ f cause, u.stage? f = some cause → x.state.run.status? f ≠ some .failed →
      y.state.run.status? f = some .failed →
        (cause.allowFailure = true → AllBut f x.state y.state) ∧
        (cause.allowFailure = false → FailsFast u env f cause x y)) ∧
    ∀ j stage o o', u.stage? j = some stage → stage.onFailure = .always →
      x.state.run.outcome? j = some o → o.status.waits = true →
      y.state.run.outcome? j = some o' → o'.status = .skipped →
        ∀ name, o'.skipReason ≠ some (.failFast name) := by
  have hturn := hxy.turn hu hx
  refine ⟨?_, fun j stage o o' hstage halways ho hs ho' hs' =>
    hturn.upright hstage halways ho hs ho' hs'⟩
  intro f cause hcause hbefore hafter
  rcases hturn.failed hx.titled hcause hbefore hafter with
    ⟨hallow, hbut⟩ | ⟨hallow, b, hbut, hleft⟩
  · exact ⟨fun _ => hbut, fun h => absurd (hallow.symm.trans h) nofun⟩
  · exact ⟨fun h => absurd (hallow.symm.trans h) nofun,
      fun _ => failsFast_of_aftermath hu hx hxy hcause hafter hallow hbut hleft⟩

/-- Three stages of one group, of which two can run at a time, and one of the group that runs
whatever happens. -/
def shardSetup : Setup where
  pipeline :=
    { name := "p"
      stages :=
        [ { name := "first", run := .script "test 1", failFastGroup := some "shards" },
          { name := "second", run := .script "test 2", failFastGroup := some "shards" },
          { name := "third", run := .script "test 3", failFastGroup := some "shards" },
          { name := "collect", run := .script "report", failFastGroup := some "shards",
            onFailure := .always } ] }
  graph :=
    { names := ["first", "second", "third", "collect"]
      places := .ofList [("first", 0), ("second", 1), ("third", 2), ("collect", 3)]
      edges := []
      predecessors := [[], [], [], []]
      successors := [[], [], [], []] }
  trigger := default
  provider := fun _ => none
  maxParallel := some 2
  hostWorkers := 4
  runId := "r"

/-- The first stage fails. The third is skipped for it and never started, the second runs on, and
the last is spared. -/
theorem fail_fast_exact_shards : ∃ x y, Reachable shardSetup freeEnvironment x ∧
    Step shardSetup freeEnvironment x y ∧ x.state.run.status? 0 = some .running ∧
      y.state.run.status? 0 = some .failed ∧
      (y.state.run.outcome? 2).bind (·.skipReason) = some (.failFast "first") ∧
      (∀ z, Steps shardSetup freeEnvironment y z → 2 ∉ z.state.starts) ∧
      y.state.run.outcome? 1 = x.state.run.outcome? 1 ∧ 1 ∈ y.state.flights ∧
      y.state.run.status? 3 = some .queued := by
  let started := left (settle shardSetup (State.start shardSetup))
  let failed := left (complete shardSetup (started.wakeAt 1) 0 (.ok { exitCode := some 1 }))
  have hu : shardSetup.Accepted := ⟨rfl⟩
  have hx : Reachable shardSetup freeEnvironment ⟨.waiting, started⟩ :=
    Reachable.settled .refl (eq_ok_left (by decide +kernel))
  obtain ⟨c, hc, hstage⟩ : ∃ c ∈ started.inFlight, c.stage = 0 := by decide +kernel
  have hclock : started.run.clock ≤ 1 := by decide +kernel
  have hfailed : complete shardSetup (started.wakeAt 1) c.stage (.ok { exitCode := some 1 }) =
      .ok failed := by
    rw [hstage]
    exact eq_ok_left (by decide +kernel)
  have hfirst : started.run.status? 0 = some .running := by decide +kernel
  have hsecond : started.run.status? 1 = some .running := by decide +kernel
  have hthird : started.run.status? 2 = some .queued := by decide +kernel
  have hnever : 2 ∉ started.starts := by decide +kernel
  obtain ⟨c₁, hc₁, hstage₁⟩ : ∃ c ∈ started.inFlight, c.stage = 1 := by decide +kernel
  have hafter : failed.run.status? 0 = some .failed := by decide +kernel
  have hspared : failed.run.status? 3 = some .queued := by decide +kernel
  clear_value started failed
  have hstep : Step shardSetup freeEnvironment ⟨.waiting, started⟩ ⟨.head, failed⟩ :=
    .join hc (fun _ h => by cases h) hclock hfailed
  obtain ⟨cause, hcause, hname, hallow, hgroup⟩ : ∃ cause, shardSetup.stage? 0 = some cause ∧
      cause.name = "first" ∧ cause.allowFailure = false ∧
      cause.failFastGroup = some "shards" := ⟨_, rfl, rfl, rfl, rfl⟩
  obtain ⟨third, hthird', hown, hpolicy⟩ : ∃ third, shardSetup.stage? 2 = some third ∧
      third.failFastGroup = some "shards" ∧ third.onFailure ≠ .always :=
    ⟨_, rfl, rfl, by decide⟩
  have hbeside : Grouped shardSetup 2 cause := ⟨third, "shards", hthird', hown, hgroup⟩
  obtain ⟨hfails, _⟩ := @fail_fast_exact shardSetup freeEnvironment _ _ hu hx hstep
  have hfall := (hfails 0 cause hcause (by rw [hfirst]; nofun) hafter).2 hallow
  obtain ⟨o₁, ho₁, hs₁⟩ := outcome?_of_status? hsecond
  obtain ⟨o₂, ho₂, hs₂⟩ := outcome?_of_status? hthird
  have htaken := hfall.taken 2 third o₂ (by decide) hthird' hbeside hpolicy ho₂ (by rw [hs₂]; rfl)
  have huntouched := hfall.untouched rfl 1 _ o₁ (by decide) rfl ho₁ (.inl hs₁)
  refine ⟨_, _, hx, hstep, hfirst, hafter, ?_, ?_, huntouched.1.trans ho₁.symm, ?_, hspared⟩
  · rw [htaken, ← hname]
    rfl
  · exact fun z hz hstarted => hnever (hfall.barred 2 third z hthird' hbeside hpolicy hz hstarted)
  · exact hstage₁ ▸ List.mem_map_of_mem (huntouched.2 c₁ hc₁ hstage₁)

end Scheduler
end Conveyor
