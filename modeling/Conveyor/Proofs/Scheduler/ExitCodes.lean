import Conveyor.Proofs.Scheduler.Aftermath
import Conveyor.Proofs.Scheduler.Confluence
import Conveyor.Proofs.Scheduler.Notices
import Conveyor.Report.Basic

/-!
# Conveyor.Proofs.Scheduler.ExitCodes

What the exit code of a run says about its stages.

The code is read off the outcomes, after the run: a failure that must not be decides it, and
failures that may be count only without one. The reason of a skip is not looked at. But a stage
falls only after one has failed that must not, and what has failed stays so. A run in which a
stage fell is therefore never taken for a success, not even in part.

* `RunStatus.Sums`    — each status with what it says about the outcomes.
* `Blaming`           — a stage that fell names one that has failed and must not.
* `Exact`             — what a report says is so of the stages, and nothing else is.
* `exit_codes_exact`  — this holds of the report of every run that is returned.
-/

namespace Conveyor

/-! ## The status of a run -/

namespace RunStatus

variable {outcomes : List Outcome} {cancelled : Bool} {a b : RunStatus}

theorem exitCode_injective : Function.Injective exitCode := by
  intro a b h
  cases a <;> cases b <;> first | rfl | cases h

/-- Each status with what it says about the outcomes. -/
inductive Sums (outcomes : List Outcome) : Bool → RunStatus → Prop where
  | cancelled : Sums outcomes true .cancelled
  | failed {o : Outcome} :
      o ∈ outcomes → o.status = .failed → o.optional = false → Sums outcomes false .failed
  | partialSuccess {o : Outcome} :
      o ∈ outcomes → o.status = .failed → (∀ o ∈ outcomes, o.status = .failed → o.optional = true) →
      Sums outcomes false .partialSuccess
  | succeeded : (∀ o ∈ outcomes, o.status ≠ .failed) → Sums outcomes false .succeeded

theorem sums (outcomes : List Outcome) (cancelled : Bool) :
    Sums outcomes cancelled (ofOutcomes outcomes cancelled) := by
  unfold ofOutcomes
  cases cancelled with
  | true => exact .cancelled
  | false =>
    simp only [Bool.false_eq_true, if_false]
    split
    · rename_i hany
      obtain ⟨o, ho, hopt⟩ := List.any_eq_true.1 hany
      obtain ⟨ho, hs⟩ := List.mem_filter.1 ho
      exact .failed ho (by simpa using hs) (by simpa using hopt)
    · rename_i hnone
      split
      · rename_i hempty
        rw [List.isEmpty_iff, List.filter_eq_nil_iff] at hempty
        exact .succeeded fun o ho hs => hempty o ho (by simpa using hs)
      · rename_i hsome
        obtain ⟨o, ho⟩ := List.exists_mem_of_ne_nil _ (mt List.isEmpty_iff.2 hsome)
        obtain ⟨ho, hs⟩ := List.mem_filter.1 ho
        refine .partialSuccess ho (by simpa using hs) fun o ho hs => ?_
        cases hopt : o.optional with
        | true => rfl
        | false =>
          have hfailed : o ∈ outcomes.filter (·.status = .failed) :=
            List.mem_filter.2 ⟨ho, by simpa using hs⟩
          exact absurd (List.any_eq_true.2 ⟨o, hfailed, by rw [hopt]; rfl⟩) hnone

theorem Sums.unique (ha : Sums outcomes cancelled a) (hb : Sums outcomes cancelled b) : a = b := by
  cases ha with
  | cancelled =>
    cases hb
    rfl
  | failed ho hs hopt =>
    cases hb with
    | failed => rfl
    | partialSuccess _ _ hall =>
      rw [hall _ ho hs] at hopt
      cases hopt
    | succeeded hall => exact absurd hs (hall _ ho)
  | partialSuccess ho hs hall =>
    cases hb with
    | failed ho' hs' hopt =>
      rw [hall _ ho' hs'] at hopt
      cases hopt
    | partialSuccess => rfl
    | succeeded hnone => exact absurd hs (hnone _ ho)
  | succeeded hnone =>
    cases hb with
    | failed ho hs | partialSuccess ho hs => exact absurd hs (hnone _ ho)
    | succeeded => rfl

theorem sums_cancelled_iff : Sums outcomes cancelled .cancelled ↔ cancelled = true := by
  constructor
  · rintro ⟨⟩
    rfl
  · rintro rfl
    exact .cancelled

theorem ofOutcomes_eq_iff : ofOutcomes outcomes cancelled = a ↔ Sums outcomes cancelled a :=
  ⟨fun h => h ▸ sums outcomes cancelled, (sums outcomes cancelled).unique⟩

end RunStatus

namespace Report

theorem exitCode_ofRun_iff (r : Run) (runId : RunId) (startedAt : Timestamp) (status : RunStatus) :
    (ofRun r runId startedAt).exitCode = status.exitCode ↔
      RunStatus.Sums r.outcomes r.cancelled status := by
  rw [← RunStatus.ofOutcomes_eq_iff]
  exact RunStatus.exitCode_injective.eq_iff

theorem count_ofRun (r : Run) (runId : RunId) (startedAt : Timestamp) (status : Status) :
    (ofRun r runId startedAt).count status = r.outcomes.countP (·.status = status) := by
  rw [count, ← List.countP_eq_length_filter]
  exact List.countP_map

end Report

theorem Outcome.length_eq_counts {outcomes : List Outcome}
    (h : ∀ o ∈ outcomes, o.status.isTerminal = true) :
    outcomes.countP (·.status = .succeeded) + outcomes.countP (·.status = .failed) +
      outcomes.countP (·.status = .skipped) = outcomes.length := by
  induction outcomes with
  | nil => rfl
  | cons o outcomes ih =>
    obtain ⟨hended, hrest⟩ := List.forall_mem_cons.1 h
    have hsum := ih hrest
    simp only [List.countP_cons, List.length_cons]
    cases hs : o.status with
    | succeeded | failed | skipped =>
      simp only [decide_true, reduceCtorEq, decide_false, Bool.false_eq_true, if_true, if_false]
      omega
    | pending | queued | running =>
      rw [hs] at hended
      cases hended

namespace Scheduler

variable {u : Setup} {env : Environment} {s s' : State} {i : Nat} {stage : Stage}
  {o o' : Outcome} {x : Point} {name : String} {run : Run}

/-! ## Stages that fell -/

/-- A stage that fell names one that has failed and must not. -/
def Blaming (u : Setup) (s : State) : Prop :=
  ∀ i o name, s.run.outcome? i = some o → o.status = .skipped →
    o.skipReason = some (.failFast name) → ∃ cause, HasFailed u s cause ∧ cause.name = name

theorem blaming_start (u : Setup) : Blaming u (State.start u) := by
  intro i o name ho hs
  obtain ⟨_, _, rfl⟩ := outcome_of_start ho
  cases hs

/-- Nothing but a failure makes a stage fall. -/
theorem Life.blames (h : Life u env s i stage o o') (hs : o'.status = .skipped)
    (hreason : o'.skipReason = some (.failFast name)) :
    ∃ cause, HasFailed u s cause ∧ cause.name = name := by
  cases h with
  | enqueue | launch | unready => cases hs
  | @finish c result =>
    by_cases hstopped : ∃ out, result = .ok out ∧ out.cancelled = true
    · obtain ⟨out, rfl, hcancelled⟩ := hstopped
      have hown := byItself_of_close (.inr hcancelled) u i o stage s.run.clock
      exact absurd hreason (hown.upright hs name)
    · have hrunning : ∀ out, result = .ok out → out.cancelled = false := fun out hout =>
        Bool.eq_false_iff.2 fun hcancelled => hstopped ⟨out, hout, hcancelled⟩
      exact absurd hs (Outcome.close_ne_skipped hrunning o stage s.run.clock)
  | ends hend =>
    cases hend with
    | refuse _ _ hgate =>
      cases hreason
      cases Gate.ofGate_of_decide hgate
    | misgate => cases hs
    | fall _ hcause =>
      cases hreason
      exact ⟨_, hcause, rfl⟩
    | withdraw => cases hreason

theorem Blaming.move (h : Blaming u s) (hm : Move u env s s') : Blaming u s' := by
  intro i o' name ho' hs hreason
  have hblamed : ∃ cause, HasFailed u s cause ∧ cause.name = name := by
    rcases hm.outcome? ho' with ho | ⟨_, _, _, _, hlife⟩
    · exact h i o' name ho hs hreason
    · exact hlife.blames hs hreason
  obtain ⟨cause, hcause, hname⟩ := hblamed
  exact ⟨cause, hm.hasFailed hcause, hname⟩

theorem Reachable.blaming (h : Reachable u env x) : Blaming u x.state :=
  h.induct (Blaming u) (blaming_start u) fun _ _ hb hm => hb.move hm

/-! ## Outcomes and stages -/

theorem Move.length_outcomes (h : Move u env s s') :
    s'.run.outcomes.length = s.run.outcomes.length := by
  rcases h.life with hsame | ⟨_, _, _, _, _, _, _, hset⟩
  · rw [hsame]
  · rw [hset, Run.setOutcome, List.length_set]

theorem Reachable.length_outcomes (h : Reachable u env x) :
    x.state.run.outcomes.length = u.pipeline.stages.length :=
  h.induct (fun s => s.run.outcomes.length = u.pipeline.stages.length)
    (by simp [State.start, Run.start]) fun _ _ hl hm => hm.length_outcomes.trans hl

def Failed (u : Setup) (run : Run) (i : Nat) (stage : Stage) : Prop :=
  u.stage? i = some stage ∧ run.status? i = some .failed

theorem Titled.failed_of_mem (ht : Titled u s) (ho : o ∈ s.run.outcomes)
    (hs : o.status = .failed) :
    ∃ i stage, Failed u s.run i stage ∧ stage.allowFailure = o.optional := by
  obtain ⟨i, ho⟩ := List.mem_iff_getElem?.1 ho
  obtain ⟨stage, hstage, _, hopt⟩ := ht.named i o ho
  have hst : s.run.status? i = some .failed := by rw [Run.status?, Run.outcome?, ho, ← hs]; rfl
  exact ⟨i, stage, ⟨hstage, hst⟩, hopt.symm⟩

theorem Titled.mem_of_failed (ht : Titled u s) (h : Failed u s.run i stage) :
    ∃ o ∈ s.run.outcomes, o.status = .failed ∧ o.optional = stage.allowFailure := by
  obtain ⟨o, ho, hs⟩ := outcome?_of_status? h.2
  obtain ⟨own, hown, _, hopt⟩ := ht.named i o ho
  obtain rfl : own = stage := Option.some.inj (hown.symm.trans h.1)
  exact ⟨o, List.mem_of_getElem? ho, hs, hopt⟩

theorem sums_failed_iff (ht : Titled u s) : RunStatus.Sums s.run.outcomes false .failed ↔
    ∃ i stage, Failed u s.run i stage ∧ stage.allowFailure = false := by
  constructor
  · rintro (_ | ⟨ho, hs, hopt⟩)
    obtain ⟨i, stage, hfailed, hallow⟩ := ht.failed_of_mem ho hs
    exact ⟨i, stage, hfailed, hallow.trans hopt⟩
  · rintro ⟨i, stage, hfailed, hallow⟩
    obtain ⟨o, ho, hs, hopt⟩ := ht.mem_of_failed hfailed
    exact .failed ho hs (hopt.trans hallow)

theorem sums_partialSuccess_iff (ht : Titled u s) :
    RunStatus.Sums s.run.outcomes false .partialSuccess ↔ (∃ i stage, Failed u s.run i stage) ∧
      ∀ i stage, Failed u s.run i stage → stage.allowFailure = true := by
  constructor
  · rintro (_ | _ | ⟨ho, hs, hall⟩)
    obtain ⟨i, stage, hfailed, _⟩ := ht.failed_of_mem ho hs
    refine ⟨⟨i, stage, hfailed⟩, ?_⟩
    intro j other hother
    obtain ⟨a, ha, has, hopt⟩ := ht.mem_of_failed hother
    exact hopt.symm.trans (hall a ha has)
  · rintro ⟨⟨i, stage, hfailed⟩, hall⟩
    obtain ⟨o, ho, hs, _⟩ := ht.mem_of_failed hfailed
    refine .partialSuccess ho hs fun a ha has => ?_
    obtain ⟨j, other, hother, hallow⟩ := ht.failed_of_mem ha has
    exact hallow.symm.trans (hall j other hother)

theorem sums_succeeded_iff (ht : Titled u s) : RunStatus.Sums s.run.outcomes false .succeeded ↔
    ∀ i stage, ¬ Failed u s.run i stage := by
  constructor
  · rintro (_ | _ | _ | hnone) i stage hfailed
    obtain ⟨o, ho, hs, _⟩ := ht.mem_of_failed hfailed
    exact hnone o ho hs
  · intro hnone
    refine .succeeded fun o ho hs => ?_
    obtain ⟨i, stage, hfailed, _⟩ := ht.failed_of_mem ho hs
    exact hnone i stage hfailed

theorem not_failed_iff (hstage : u.stage? i = some stage) (ho : run.outcome? i = some o)
    (hs : o.status.isTerminal = true) : ¬ Failed u run i stage ↔
      run.status? i = some .succeeded ∨ run.status? i = some .skipped := by
  rw [Failed, Run.status?, ho, Option.map_some]
  cases hst : o.status with
  | succeeded | failed | skipped => simp [hstage]
  | pending | queued | running =>
    rw [hst] at hs
    cases hs

/-! ## Exit codes -/

/-- What the report says is so of the stages of the run, and nothing else is. -/
structure Exact (u : Setup) (run : Run) (report : Report) : Prop where
  counts : report.count .succeeded + report.count .failed + report.count .skipped =
    u.pipeline.stages.length
  cancelled : report.exitCode = 130 ↔ run.cancelled = true
  failed : run.cancelled = false → (report.exitCode = 1 ↔
    ∃ i stage, Failed u run i stage ∧ stage.allowFailure = false)
  partialSuccess : run.cancelled = false → (report.exitCode = 3 ↔
    (∃ i stage, Failed u run i stage) ∧
      ∀ i stage, Failed u run i stage → stage.allowFailure = true)
  succeeded : run.cancelled = false → (report.exitCode = 0 ↔
    ∀ i stage, u.stage? i = some stage →
      run.status? i = some .succeeded ∨ run.status? i = some .skipped)
  /-- A run in which a stage fell has failed, or was cancelled after that. -/
  fell : ∀ i o name, run.outcome? i = some o → o.status = .skipped →
    o.skipReason = some (.failFast name) → report.exitCode = 1 ∨ report.exitCode = 130

/-- In whatever order the commands of a run are done, with whatever results and whenever it is
cancelled, the exit code and the counts in the report of the run that is returned say exactly what
has become of its stages, and a run in which a stage fell is never taken for a success. -/
theorem exit_codes_exact (hx : Reachable u env x) (hr : Returns u env x (.ok run))
    (runId : RunId) (startedAt : Timestamp) :
    Exact u run (Report.ofRun run runId startedAt) := by
  have hcomplete := hr.isComplete
  obtain rfl := hr.run_eq
  have ht : Titled u x.state := hx.titled
  have hended : ∀ o ∈ x.state.run.outcomes, o.status.isTerminal = true := by
    rwa [Run.isComplete, List.all_eq_true] at hcomplete
  have hsettled : ∀ i stage, u.stage? i = some stage → (¬ Failed u x.state.run i stage ↔
      x.state.run.status? i = some .succeeded ∨ x.state.run.status? i = some .skipped) := by
    intro i stage hstage
    obtain ⟨o, ho⟩ := ht.present i stage hstage
    exact not_failed_iff hstage ho (hended o (List.mem_of_getElem? ho))
  have hcode := Report.exitCode_ofRun_iff x.state.run runId startedAt
  have hcode' (hc : x.state.run.cancelled = false) (status : RunStatus) :
      (Report.ofRun x.state.run runId startedAt).exitCode = status.exitCode ↔
        RunStatus.Sums x.state.run.outcomes false status := hc ▸ hcode status
  refine ⟨?_, (hcode .cancelled).trans RunStatus.sums_cancelled_iff, ?_, ?_, ?_, ?_⟩
  · simp only [Report.count_ofRun, Outcome.length_eq_counts hended, hx.length_outcomes]
  · exact fun hc => (hcode' hc .failed).trans (sums_failed_iff ht)
  · exact fun hc => (hcode' hc .partialSuccess).trans (sums_partialSuccess_iff ht)
  · intro hc
    refine (hcode' hc .succeeded).trans ((sums_succeeded_iff ht).trans ?_)
    constructor
    · intro hnone i stage hstage
      exact (hsettled i stage hstage).1 (hnone i stage)
    · intro hall i stage hfailed
      exact (hsettled i stage hfailed.1).2 (hall i stage hfailed.1) hfailed
  · intro i o name ho hs hreason
    obtain ⟨cause, ⟨j, a, hcause, ha, has, hallow⟩, _⟩ := hx.blaming i o name ho hs hreason
    have hfailed : Failed u x.state.run j cause :=
      ⟨hcause, by rw [Run.status?, ha, Option.map_some, has]⟩
    cases hc : x.state.run.cancelled with
    | true => exact .inr ((hcode .cancelled).2 (RunStatus.sums_cancelled_iff.2 hc))
    | false =>
      exact .inl ((hcode' hc .failed).2 ((sums_failed_iff ht).2 ⟨j, cause, hfailed, hallow⟩))

def firstFails (i : Nat) : Except Error CommandOutput :=
  .ok { exitCode := some (if i = 0 then 1 else 0) }

/-- One stage fails, one falls with it, two are not let in and one succeeds. -/
theorem exit_codes_exact_checks : ∃ x run,
    Reachable checksSetup (fixedEnvironment firstFails) x ∧
      Returns checksSetup (fixedEnvironment firstFails) x (.ok run) ∧
      run.cancelled = false ∧ run.status? 1 = some .skipped ∧
      ∀ runId startedAt,
        (Report.ofRun run runId startedAt).count .succeeded +
            (Report.ofRun run runId startedAt).count .failed +
            (Report.ofRun run runId startedAt).count .skipped = 5 ∧
          (Report.ofRun run runId startedAt).exitCode = 1 := by
  have hreplay : (runOf? checksSetup firstFails [0, 4]).map
      (fun run => (run.cancelled, [0, 1].map run.status?)) =
        some (false, [some .failed, some .skipped]) := by
    decide +kernel
  obtain ⟨run, hrun, hfacts⟩ := Option.map_eq_some_iff.1 hreplay
  obtain ⟨hc, hstatuses⟩ := Prod.mk.inj hfacts
  obtain ⟨hlint, htypes⟩ := List.cons_eq_cons.1 hstatuses
  obtain ⟨x, hx, hr⟩ := returns_of_runOf? hrun
  refine ⟨x, run, hx, hr, hc, List.head_eq_of_cons_eq htypes, fun runId startedAt => ?_⟩
  have hexact := exit_codes_exact hx hr runId startedAt
  exact ⟨hexact.counts, (hexact.failed hc).2 ⟨0, _, ⟨rfl, hlint⟩, rfl⟩⟩

end Scheduler
end Conveyor
