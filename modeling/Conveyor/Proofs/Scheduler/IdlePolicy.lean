import Conveyor.Proofs.Scheduler.DefaultPolicy

/-!
# Conveyor.Proofs.Scheduler.IdlePolicy

What the policy of a stage without dependencies does to a run.

A definition is accepted with a warning if a stage without dependencies has a policy for the failure
of a dependency. The warning says that the policy has no effect, and that is so for every policy but
`always`: the runs are those with the default policy, step by step. A stage that runs always is
also spared by a failure of some other stage, in its group or under the fail-fast of the definition.
The runs are the same up to such a failure and part there, for good.

* `Together` — the points that both runs come to by the same steps.
* `Fork`     — the step after which they are not together any more.
* `FellWith` — how the stage ends after a fork with the default policy, and only with that one.
* `Struck`   — the failure that makes a fork.
* `Compared` — how the runs compare.
* `idle_policies_exact` — every stage with the warning has such runs.
-/

namespace Conveyor
namespace Scheduler

variable {u : Setup} {env : Environment} {k : Nat} {stage cause : Stage} {o o' : Outcome}
  {x y z : Point}

/-! ## Whole runs -/

theorem predecessorsOf_of_free (hu : u.Accepted) (hstage : u.stage? k = some stage)
    (hfree : stage.dependencyNames = []) : u.graph.predecessorsOf k = [] := by
  refine List.eq_nil_iff_forall_not_mem.2 fun d hd => ?_
  obtain ⟨s, hs, n, hw, _⟩ := (hu.describes.needs k d).1 (Graph.mem_predecessorsOf.1 hd)
  cases hstage.symm.trans hs
  have hname := Stage.mem_dependencyNames.2 hw
  rw [hfree] at hname
  cases hname

theorem Point.plain_start (u : Setup) (k : Nat) :
    (⟨.head, State.start u⟩ : Point).plain k = ⟨.head, State.start (u.plain k)⟩ :=
  congrArg (Point.mk .head) (State.plain_start u k)

/-- Both runs come here by the same steps. -/
inductive Together (u : Setup) (env : Environment) (k : Nat) : Point → Prop where
  | start : Together u env k ⟨.head, State.start u⟩
  | step {x y : Point} : Together u env k x → Step u env x y →
      Step (u.plain k) env (x.plain k) (y.plain k) → Together u env k y

theorem Together.reachable (h : Together u env k z) : Reachable u env z := by
  induction h with
  | start => exact .refl
  | step _ hstep _ ih => exact ih.tail hstep

theorem Together.reachable_plain (h : Together u env k z) :
    Reachable (u.plain k) env (z.plain k) := by
  induction h with
  | start =>
    rw [Point.plain_start]
    exact .refl
  | step _ _ hstep ih => exact ih.tail hstep

/-- One step after which the runs are not together any more. -/
structure Fork (u : Setup) (env : Environment) (k : Nat) (cause : Stage) (x y y' : Point) :
    Prop where
  together : Together u env k x
  left : Step u env x y
  right : Step (u.plain k) env (x.plain k) y'
  parted : Parted u k cause y.state y'.state

theorem TiedPoint.cases {y' : Point} (h : TiedPoint u k y y') :
    y' = y.plain k ∨ ∃ cause, Parted u k cause y.state y'.state := by
  obtain ⟨place, s⟩ := y
  obtain ⟨place', s'⟩ := y'
  obtain ⟨hplace, hstate⟩ := h
  cases hplace
  refine hstate.imp ?_ id
  rintro rfl
  rfl

section
variable (hu : u.Accepted) (hroot : u.graph.predecessorsOf k = [])
include hu hroot

/-- A run goes with the one with the default policy as far as it comes, or up to a fork. -/
theorem together_or_fork (hz : Reachable u env z) : Together u env k z ∨
    ∃ cause x y y', Fork u env k cause x y y' ∧ Steps u env y z := by
  induction hz with
  | refl => exact .inl .start
  | @tail x y hx hstep ih =>
    rcases ih with htogether | ⟨cause, a, b, b', hfork, hsteps⟩
    · have htitled := htogether.reachable.titled
      obtain ⟨y', hstep', htied⟩ :=
        hstep.plain hu htitled.present (htitled.graph ▸ hroot)
      rcases htied.cases with rfl | ⟨cause, hparted⟩
      · exact .inl (htogether.step hstep hstep')
      · exact .inr ⟨cause, x, y, y', ⟨htogether, hstep, hstep', hparted⟩, .refl⟩
    · exact .inr ⟨cause, a, b, b', hfork, hsteps.tail hstep⟩

theorem plain_together_or_fork {z' : Point} (hz : Reachable (u.plain k) env z') :
    (∃ z, z' = z.plain k ∧ Together u env k z) ∨
    ∃ cause x y y', Fork u env k cause x y y' ∧ Steps (u.plain k) env y' z' := by
  induction hz with
  | refl =>
    exact .inl ⟨_, (Point.plain_start u k).symm, .start⟩
  | @tail x' y' hx hstep ih =>
    rcases ih with ⟨x, rfl, htogether⟩ | ⟨cause, a, b, b', hfork, hsteps⟩
    · have htitled := htogether.reachable.titled
      obtain ⟨y, hstep', htied⟩ :=
        Step.of_plain hu htitled.present (htitled.graph ▸ hroot) hstep
      rcases htied.cases with rfl | ⟨cause, hparted⟩
      · exact .inl ⟨y, rfl, htogether.step hstep' hstep⟩
      · exact .inr ⟨cause, x, y, y', ⟨htogether, hstep', hstep, hparted⟩, .refl⟩
    · exact .inr ⟨cause, a, b, b', hfork, hsteps.tail hstep⟩

theorem Together.returns_iff (h : Together u env k z) {result' : Except Error Run} :
    Returns (u.plain k) env (z.plain k) result' ↔
      ∃ result, Returns u env z result ∧ result' = result.map (·.plain k) := by
  have htitled := h.reachable.titled
  have hroot' : z.state.run.graph.predecessorsOf k = [] := htitled.graph ▸ hroot
  constructor
  · exact Returns.of_plain hu htitled.present hroot'
  · rintro ⟨result, hr, rfl⟩
    exact hr.plain hu htitled.present hroot'

end

/-! ## After a fork -/

def FellWith (cause : Stage) (o : Outcome) : Prop :=
  o.status = .skipped ∧ o.skipReason = some (.failFast cause.name)

/-- A stage falls in the step in which its cause fails, so it does not fall with one that has failed
before. -/
theorem Step.not_fellWith (hu : u.Accepted) (hx : Reachable u env x) (h : Step u env x y)
    (hcause : HasFailed u x.state cause) (hstage : u.stage? k = some stage)
    (ho : x.state.run.outcome? k = some o) (hnot : ¬ FellWith cause o)
    (ho' : y.state.run.outcome? k = some o') : ¬ FellWith cause o' := by
  rintro ⟨hs, hreason⟩
  cases (h.turn hu hx).change hstage ho ho' with
  | none => exact hnot ⟨hs, hreason⟩
  | alone _ _ hown => exact hown.upright hs cause.name hreason
  | launch => cases hs
  | withdraw => cases hreason
  | fail _ _ _ hfailed =>
    rw [hfailed] at hs
    cases hs
  | @fall f cause' a _ hf ha hopen =>
    have hname : cause'.name = cause.name := SkipReason.failFast.inj (Option.some.inj hreason)
    obtain ⟨j, b, hj, hb, hfailed, _⟩ := hcause
    cases hu.describes.name_inj hf hj hname
    cases ha.symm.trans hb
    rw [hfailed] at hopen
    cases hopen

namespace Fork

variable {y' : Point}

theorem not_fellWith (hu : u.Accepted) (h : Fork u env k cause x y y') (hz : Steps u env y z) :
    ∀ o, z.state.run.outcome? k = some o → ¬ FellWith cause o := by
  have hy : Reachable u env y := h.together.reachable.tail h.left
  obtain ⟨stage, hstage, _⟩ := h.parted.exposed.always
  induction hz with
  | refl =>
    rintro o ho ⟨hs, _⟩
    obtain ⟨a, ha, hwaits⟩ := h.parted.exposed.waits
    cases ho.symm.trans ha
    rw [hs] at hwaits
    cases hwaits
  | @tail z z' hz hstep ih =>
    intro o' ho'
    have hreach : Reachable u env z := Relation.ReflTransGen.trans hy hz
    obtain ⟨o, ho⟩ := hreach.titled.present k stage hstage
    exact hstep.not_fellWith hu hreach ((moves_of_steps hz).hasFailed h.parted.failed) hstage ho
      (ih o ho) ho'

theorem fellWith (h : Fork u env k cause x y y') (hz : Steps (u.plain k) env y' z) :
    ∃ o, z.state.run.outcome? k = some o ∧ FellWith cause o := by
  obtain ⟨a, ha, _⟩ := h.parted.exposed.waits
  have hfallen := h.parted.fallen a ha
  exact ⟨_, (moves_of_steps hz).kept hfallen rfl, rfl, rfl⟩

end Fork

/-! ## Where forks are -/

/-- Another stage that must not fail does so while the stage waits, and would take it along if it
did not run always. -/
structure Struck (u : Setup) (k f : Nat) (cause : Stage) (s s' : State) : Prop where
  other : k ≠ f
  stage : u.stage? f = some cause
  required : cause.allowFailure = false
  reached : Grouped u k cause ∨ u.pipeline.settings.failFast = true
  waits : ∃ o, s.run.outcome? k = some o ∧ o.status.waits = true
  before : s.run.status? f ≠ some .failed
  after : s'.run.status? f = some .failed

namespace Struck

variable {f : Nat} {y' : Point}

theorem falls (hu : u.Accepted) (hx : Together u env k x) (hstage : u.stage? k = some stage)
    (halways : stage.onFailure = .always) (hstruck : Struck u k f cause x.state y.state)
    (ho : x.state.run.outcome? k = some o) (hs : o.status.waits = true)
    (h : Step (u.plain k) env (x.plain k) y') (hf : y'.state.run.status? f = some .failed) :
    ∃ now, y'.state.run.outcome? k = some (o.skip (.failFast cause.name) now) := by
  have hcause : (u.plain k).stage? f = some cause :=
    (Setup.stage?_plain_of_ne hstruck.other.symm).trans hstruck.stage
  have hreach := hx.reachable_plain
  rcases (h.turn (hu.plain k) hreach).failed hreach.titled hcause hstruck.before hf with
    ⟨hallow, _⟩ | ⟨_, b, hbut, hafter⟩
  · rw [hstruck.required] at hallow
    cases hallow
  · have hexposed : Exposed u k x.state cause :=
      ⟨⟨stage, hstage, halways⟩, hstruck.waits, hstruck.reached⟩
    exact ⟨_, hafter.taken k stage.plain o (Setup.stage?_plain_self hstage)
      ((hbut.others k hstruck.other).trans ho) (hexposed.falls hstage hs)⟩

/-- A stage that runs always does not fall in such a step, so it is not one with the default policy
as well. -/
theorem not_plain (hu : u.Accepted) (hx : Together u env k x) (h : Step u env x y)
    (hstage : u.stage? k = some stage) (halways : stage.onFailure = .always)
    (hstruck : Struck u k f cause x.state y.state) :
    ¬ Step (u.plain k) env (x.plain k) (y.plain k) := by
  intro hplain
  obtain ⟨o, ho, hs⟩ := hstruck.waits
  obtain ⟨_, hfallen⟩ := hstruck.falls hu hx hstage halways ho hs hplain hstruck.after
  exact (h.turn hu hx.reachable).upright hstage halways ho hs hfallen rfl cause.name rfl

/-- A fork in such a step is made by the failure that strikes the stage. -/
theorem cause_eq {other : Stage} (hu : u.Accepted) (hstage : u.stage? k = some stage)
    (halways : stage.onFailure = .always) (hstruck : Struck u k f cause x.state y.state)
    (h : Fork u env k other x y y') : other = cause := by
  obtain ⟨o, ho, hs⟩ := hstruck.waits
  have hf : y'.state.run.status? f = some .failed := by
    rw [Run.status?, h.parted.others f cause hstruck.other.symm hstruck.stage]
    exact hstruck.after
  obtain ⟨_, hstricken⟩ := hstruck.falls hu h.together hstage halways ho hs h.right hf
  obtain ⟨a, ha, _⟩ := h.parted.exposed.waits
  have hname : other.name = cause.name := by
    have hskips := Option.some.inj ((h.parted.fallen a ha).symm.trans hstricken)
    exact SkipReason.failFast.inj (Option.some.inj (congrArg Outcome.skipReason hskips))
  obtain ⟨j, _, hj, _⟩ := h.parted.failed
  cases hu.describes.name_inj hj hstruck.stage hname
  exact Option.some.inj (hj.symm.trans hstruck.stage)

end Struck

/-! ## Runs with and without the policy -/

/-- How the runs of a setup compare with those in which one stage has the default policy. -/
structure Compared (u : Setup) (env : Environment) (k : Nat) (stage : Stage) : Prop where
  left : ∀ z, Reachable u env z → Together u env k z ∨
    ∃ cause x y y', Fork u env k cause x y y' ∧ Steps u env y z
  right : ∀ z', Reachable (u.plain k) env z' → (∃ z, z' = z.plain k ∧ Together u env k z) ∨
    ∃ cause x y y', Fork u env k cause x y y' ∧ Steps (u.plain k) env y' z'
  /-- Where the runs are together, they return the same. -/
  returns : ∀ z, Together u env k z → ∀ result', Returns (u.plain k) env (z.plain k) result' ↔
    ∃ result, Returns u env z result ∧ result' = result.map (·.plain k)
  /-- Only a stage that runs always makes a fork, and then it ends in two ways. -/
  parted : ∀ cause x y y', Fork u env k cause x y y' → stage.onFailure = .always ∧
    (∀ z o, Steps u env y z → z.state.run.outcome? k = some o → ¬ FellWith cause o) ∧
    ∀ z, Steps (u.plain k) env y' z → ∃ o, z.state.run.outcome? k = some o ∧ FellWith cause o
  /-- Such a stage makes one wherever a failure strikes it. -/
  forks : stage.onFailure = .always → ∀ f cause x y, Together u env k x → Step u env x y →
    Struck u k f cause x.state y.state → ∃ y', Fork u env k cause x y y'

/-- If a stage of an accepted definition gets the warning that its policy has no effect, the
definition is accepted with the default policy as well, and the two have the same runs up to the
failures that strike the stage while it waits and runs always: whatever the trigger, the workers,
the results of the commands, their order and the cancel. So a policy other than `always` has indeed
no effect, and `always` has one exactly in the runs with such a failure. -/
theorem idle_policies_exact (hu : u.Accepted) (hstage : u.stage? k = some stage)
    (hwarn : Validation.policyFindings stage ≠ []) (env : Environment) :
    (u.plain k).Accepted ∧ Compared u env k stage := by
  have hfree : stage.dependencyNames = [] := by
    rw [Validation.policyFindings] at hwarn
    split at hwarn
    · rename_i hidle
      exact hidle.2
    · exact absurd rfl hwarn
  have hroot := predecessorsOf_of_free hu hstage hfree
  refine ⟨hu.plain k, ?_, ?_, ?_, ?_, ?_⟩
  · exact fun z hz => together_or_fork hu hroot hz
  · exact fun z' hz => plain_together_or_fork hu hroot hz
  · exact fun z hz result' => hz.returns_iff hu hroot
  · intro cause x y y' hfork
    obtain ⟨own, hown, halways⟩ := hfork.parted.exposed.always
    cases hstage.symm.trans hown
    exact ⟨halways, fun z o hz ho => hfork.not_fellWith hu hz o ho, fun z hz => hfork.fellWith hz⟩
  · intro halways f cause x y hx hxy hstruck
    have htitled := hx.reachable.titled
    obtain ⟨y', hxy', htied⟩ := hxy.plain hu htitled.present (htitled.graph ▸ hroot)
    rcases htied.cases with rfl | ⟨cause', hparted⟩
    · exact absurd hxy' (hstruck.not_plain hu hx hxy hstage halways)
    · have hfork : Fork u env k cause' x y y' := ⟨hx, hxy, hxy', hparted⟩
      exact ⟨y', hstruck.cause_eq hu hstage halways hfork ▸ hfork⟩

/-- A stage that fails the run when it fails, and one that runs always, with one worker. -/
def sweepSetup : Setup where
  pipeline :=
    { name := "p"
      settings := { failFast := true }
      stages :=
        [ { name := "unit", run := .script "test" },
          { name := "sweep", run := .script "sweep", onFailure := .always } ] }
  graph :=
    { names := ["unit", "sweep"]
      places := .ofList [("unit", 0), ("sweep", 1)]
      edges := []
      predecessors := [[], []]
      successors := [[], []] }
  trigger := default
  provider := fun _ => none
  maxParallel := some 1
  hostWorkers := 4
  runId := "r"

/-- The first stage fails while the other one waits for the worker. That one succeeds then, and with
the default policy it is skipped. -/
theorem idle_policies_exact_sweep :
    (∃ cause x y y', Fork sweepSetup freeEnvironment 1 cause x y y') ∧
    (∃ x, Reachable sweepSetup freeEnvironment x ∧
      Returns sweepSetup freeEnvironment x (.ok x.state.run) ∧
      x.state.run.status? 1 = some .succeeded) ∧
    ∃ x, Reachable (sweepSetup.plain 1) freeEnvironment x ∧
      Returns (sweepSetup.plain 1) freeEnvironment x (.ok x.state.run) ∧
      x.state.run.status? 1 = some .skipped := by
  let failed : Except Error CommandOutput := .ok { exitCode := some 1 }
  let succeeded : Except Error CommandOutput := .ok { exitCode := some 0 }
  let started := left (settle sweepSetup (State.start sweepSetup))
  let struck := left (complete sweepSetup (started.wakeAt 1) 0 failed)
  let replayed := replay? sweepSetup [(0, failed), (1, succeeded)] (State.start sweepSetup)
  let replayed' := replay? (sweepSetup.plain 1) [(0, failed)] (State.start (sweepSetup.plain 1))
  have hanswers : ∀ c out, freeEnvironment.answers c (.ok out) := fun _ _ _ h => by cases h
  have hreplayed : ∀ e ∈ [(0, failed)] ++ [(1, succeeded)], ∀ c : InFlight, c.stage = e.1 →
      freeEnvironment.answers c e.2 := by
    intro e he c _
    rcases List.mem_pair.1 he with rfl | rfl <;> exact hanswers c _
  have hu : sweepSetup.Accepted := ⟨rfl⟩
  refine ⟨?_, ?_, ?_⟩
  · have hstage : sweepSetup.stage? 1 =
        some { name := "sweep", run := .script "sweep", onFailure := .always } := rfl
    obtain ⟨_, hcompared⟩ := idle_policies_exact hu hstage (by decide) freeEnvironment
    have hx : Reachable sweepSetup freeEnvironment ⟨.waiting, started⟩ :=
      Reachable.settled .refl (eq_ok_left (by decide +kernel))
    obtain ⟨c, hc, hunit⟩ : ∃ c ∈ started.inFlight, c.stage = 0 := by decide +kernel
    have hstep : Step sweepSetup freeEnvironment ⟨.waiting, started⟩ ⟨.head, struck⟩ := by
      have hclock : started.run.clock ≤ 1 := by decide +kernel
      refine .join hc (hanswers c { exitCode := some 1 }) hclock ?_
      rw [hunit]
      exact eq_ok_left (by decide +kernel)
    have hwaits : ∃ o, started.run.outcome? 1 = some o ∧ o.status.waits = true := by
      obtain ⟨o, ho, hs⟩ := outcome?_of_status?
        (by decide +kernel : started.run.status? 1 = some .queued)
      exact ⟨o, ho, by rw [hs]; rfl⟩
    have hstruck : Struck sweepSetup 1 0 { name := "unit", run := .script "test" } started struck :=
      ⟨by decide, rfl, rfl, .inr rfl, hwaits, by decide +kernel, by decide +kernel⟩
    rcases hcompared.left _ hx with htogether | ⟨cause, x, y, y', hfork, _⟩
    · obtain ⟨y', hfork⟩ := hcompared.forks rfl _ _ _ _ htogether hstep hstruck
      exact ⟨_, _, _, y', hfork⟩
    · exact ⟨cause, x, y, y', hfork⟩
  · exact ⟨⟨.waiting, replayed.getD default⟩,
      Reachable.replayed hreplayed .refl (eq_some_getD (by decide +kernel)),
      .verdict (verdict?_idle (by decide +kernel) (by decide +kernel)), by decide +kernel⟩
  · exact ⟨⟨.waiting, replayed'.getD default⟩,
      Reachable.replayed (fun e he => hreplayed e (List.mem_append_left _ he)) .refl
        (eq_some_getD (by decide +kernel)),
      .verdict (verdict?_idle (by decide +kernel) (by decide +kernel)), by decide +kernel⟩

end Scheduler
end Conveyor
