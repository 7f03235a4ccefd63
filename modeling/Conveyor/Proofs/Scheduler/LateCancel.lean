import Conveyor.Proofs.Scheduler.Cancellation
import Conveyor.Proofs.Scheduler.ExitCodes
import Conveyor.Proofs.Scheduler.Skips

/-!
# Conveyor.Proofs.Scheduler.LateCancel

A request to cancel that comes when every stage has ended.

The driver looks at requests until it returns, and it may still wait then: commands that a fail-fast
has told to stop linger, or one of a stage that has ended is about to be looked at. A request that
comes so late finds nothing to skip and changes the outcome of no stage. But the run is marked all
the same, and the mark decides the status of the report, whatever the stages say. Without the
request the report would say what the outcomes say, which is never that the run was cancelled.

So whether the status was earned is told by the stages only. With honest commands one of them is
skipped as cancelled exactly if one had not ended when the request came.

* `Environment.undisturbed` — the same world, in which nobody cancels.
* `CancelledAt`             — the step of a run in which the request comes.
* `Reachable.cancelledAt`   — a run that is cancelled has such a step.
* `CancelledAt.outcomes`    — a late request changes no outcome.
* `Decided`                 — what becomes of a run in which every stage has ended.
* `late_cancels_exact`      — what a report says after a request, in time or late.
-/

namespace Conveyor
namespace Scheduler

variable {u : Setup} {env : Environment} {s : State} {i : Nat} {o : Outcome} {x y z : Point}

/-- The same world, in which nobody cancels. -/
def Environment.undisturbed (env : Environment) : Environment := { env with cancels := False }

/-- The request to cancel comes in this step. -/
structure CancelledAt (u : Setup) (env : Environment) (x y : Point) : Prop where
  reached : Reachable u env x
  step : Step u env x y
  before : x.state.run.cancelled = false
  after : y.state.run.cancelled = true

theorem Reachable.cancelledAt (h : Reachable u env z) (hc : z.state.run.cancelled = true) :
    ∃ x y, CancelledAt u env x y ∧ Steps u env y z := by
  induction h with
  | refl => cases hc
  | @tail x y hx hstep ih =>
    cases hbefore : x.state.run.cancelled with
    | false => exact ⟨x, y, ⟨hx, hstep, hbefore, hc⟩, .refl⟩
    | true =>
      obtain ⟨x', y', hat, hsteps⟩ := ih hbefore
      exact ⟨x', y', hat, hsteps.tail hstep⟩

namespace CancelledAt

theorem isOver (hu : u.Accepted) (h : CancelledAt u env x y) : Over y.state :=
  Reachable.over_of_cancelled hu (h.reached.tail h.step) h.after

theorem fading (hu : u.Accepted) (h : CancelledAt u env x y) (hz : Steps u env y z) :
    Fading y.state z.state :=
  (h.isOver hu).fading hz

theorem skipped (hu : u.Accepted) (h : CancelledAt u env x y) (hz : Steps u env y z)
    (ho : x.state.run.outcome? i = some o) (hs : o.status.isTerminal = false) :
    ∃ o', z.state.run.outcome? i = some o' ∧ o'.status = .skipped ∧
      o'.skipReason = some .cancelled := by
  have hcut := (h.step.cut hu h.reached h.before h.after).ended i o ho hs
  exact ⟨_, ((h.fading hu hz).outcome?_eq i).trans hcut, rfl, rfl⟩

/-- A request that comes when every stage has ended changes no outcome. -/
theorem outcomes (hu : u.Accepted) (h : CancelledAt u env x y) (hz : Steps u env y z)
    (hx : Ended x.state) : z.state.run.outcomes = x.state.run.outcomes := by
  have hy : Reachable u env y := h.reached.tail h.step
  have hlength : y.state.run.outcomes.length = x.state.run.outcomes.length :=
    hy.length_outcomes.trans h.reached.length_outcomes.symm
  have hcut : y.state.run.outcomes = x.state.run.outcomes := by
    refine List.ext_getElem? fun i => ?_
    cases ho : x.state.run.outcomes[i]? with
    | none =>
      rw [List.getElem?_eq_none_iff] at ho ⊢
      rwa [hlength]
    | some o => exact (h.step.cut hu h.reached h.before h.after).kept i o ho (hx i o ho)
  exact (h.fading hu hz).outcomes.trans hcut

/-- With honest commands no stage was skipped as cancelled before. -/
theorem not_skipped (hu : u.Accepted) (henv : env.Honest) (h : CancelledAt u env x y)
    (ho : x.state.run.outcome? i = some o) (hs : o.status = .skipped) :
    o.skipReason ≠ some .cancelled := by
  intro hcancelled
  obtain ⟨stage, hstage, _⟩ := h.reached.titled.named i o ho
  obtain ⟨reason, hreason, htrue⟩ := h.reached.reasoned hu henv i stage o hstage ho hs
  cases hreason.symm.trans hcancelled
  have hmarked : x.state.run.cancelled = true := htrue
  rw [h.before] at hmarked
  cases hmarked

end CancelledAt

theorem status_eq_cancelled_iff (run : Run) (runId : RunId) (startedAt : Timestamp) :
    (Report.ofRun run runId startedAt).status = .cancelled ↔ run.cancelled = true := by
  refine ⟨fun h => ?_, fun h => status_ofRun h runId startedAt⟩
  have hsums := RunStatus.ofOutcomes_eq_iff.1 h
  cases hc : run.cancelled with
  | true => rfl
  | false =>
    rw [hc] at hsums
    cases hsums

/-- What becomes of a run in which nobody cancels from here on: nothing is recorded of any stage,
and the report says what the outcomes say. -/
structure Decided (u : Setup) (env : Environment) (x : Point) : Prop where
  returns : ∀ z result, Steps u env.undisturbed x z → Returns u env.undisturbed z result →
    ∃ run, result = .ok run ∧ run.outcomes = x.state.run.outcomes ∧ ∀ runId startedAt,
      (Report.ofRun run runId startedAt).status =
          RunStatus.ofOutcomes x.state.run.outcomes false ∧
        (Report.ofRun run runId startedAt).status ≠ .cancelled
  ends : (∀ c ∈ x.state.inFlight, ∃ result, env.answers c result) →
    ∃ z, Steps u env.undisturbed x z ∧ Returns u env.undisturbed z (.ok z.state.run)

theorem Ended.decided (hx : Ended x.state) (hc : x.state.run.cancelled = false) :
    Decided u env x := by
  have hclosed : Closed env.undisturbed x.state := ⟨hx, fun h => h.elim⟩
  refine ⟨?_, hclosed.exists_return x⟩
  intro z result hz hr
  have hfading := hclosed.fading hz
  obtain ⟨hresult, _⟩ := (hclosed.persists hfading).of_returns hr
  refine ⟨z.state.run, hresult, hfading.outcomes, fun runId startedAt => ?_⟩
  have hunmarked : z.state.run.cancelled = false := hfading.cancelled.trans hc
  constructor
  · show RunStatus.ofOutcomes z.state.run.outcomes z.state.run.cancelled = _
    rw [hfading.outcomes, hunmarked]
  · rw [Ne, status_eq_cancelled_iff, hunmarked]
    exact Bool.noConfusion

/-- Whenever a request to cancel comes, and whatever the commands answer, a run that is returned is
reported as cancelled exactly if a request came. If one of the stages had not ended when it came,
one is skipped as cancelled. If all had, the request changes no outcome; without it the run is
returned with the same outcomes, and its report says what they say, which is never that the run was
cancelled. With honest commands no stage is skipped as cancelled then. -/
theorem late_cancels_exact (hu : u.Accepted) (hz : Reachable u env z) {run : Run}
    (hr : Returns u env z (.ok run)) (runId : RunId) (startedAt : Timestamp) :
    ((Report.ofRun run runId startedAt).status = .cancelled ↔
      ∃ x y, CancelledAt u env x y ∧ Steps u env y z) ∧
    ∀ x y, CancelledAt u env x y → Steps u env y z →
      (¬ Ended x.state →
        ∃ i o, run.outcome? i = some o ∧ o.status = .skipped ∧ o.skipReason = some .cancelled) ∧
      (Ended x.state → run.outcomes = x.state.run.outcomes ∧ Decided u env x ∧
        (env.Honest → ∀ i o, run.outcome? i = some o → o.status = .skipped →
          o.skipReason ≠ some .cancelled)) := by
  obtain rfl := hr.run_eq
  refine ⟨?_, fun x y hat hsteps => ⟨fun hopen => ?_, fun hended => ?_⟩⟩
  · rw [status_eq_cancelled_iff]
    refine ⟨hz.cancelledAt, ?_⟩
    rintro ⟨x, y, hat, hsteps⟩
    exact (hat.fading hu hsteps).cancelled.trans hat.after
  · simp only [Ended, not_forall] at hopen
    obtain ⟨i, o, ho, hs⟩ := hopen
    obtain ⟨o', ho', hskipped⟩ := hat.skipped hu hsteps ho (Bool.eq_false_iff.2 hs)
    exact ⟨i, o', ho', hskipped⟩
  · have houtcomes := hat.outcomes hu hsteps hended
    refine ⟨houtcomes, hended.decided hat.before, fun henv i o ho hs => ?_⟩
    rw [Run.outcome?, houtcomes] at ho
    exact hat.not_skipped hu henv ho hs

theorem ended_of_isComplete (h : s.run.isComplete = true) : Ended s :=
  fun _ o ho => List.all_eq_true.1 h o (List.mem_of_getElem? ho)

/-- One stage has failed, and the run is cancelled when every stage has ended and only the command
is left that the failure has told to stop. The report says cancelled, which no stage does; without
the request it would have said failed. -/
theorem late_cancels_exact_linger : ∃ x y z z' : Point,
    CancelledAt lingerSetup honestEnvironment x y ∧ x.state.flights = [0] ∧ Ended x.state ∧
      Steps lingerSetup honestEnvironment y z ∧
      Returns lingerSetup honestEnvironment z (.ok z.state.run) ∧
      (∀ i o, z.state.run.outcome? i = some o → o.status = .skipped →
        o.skipReason ≠ some .cancelled) ∧
      Steps lingerSetup honestEnvironment.undisturbed x z' ∧
      Returns lingerSetup honestEnvironment.undisturbed z' (.ok z'.state.run) ∧
      ∀ runId startedAt, (Report.ofRun z.state.run runId startedAt).status = .cancelled ∧
        (Report.ofRun z'.state.run runId startedAt).status = .failed := by
  let events : List (Nat × Except Error CommandOutput) :=
    [(1, .ok { exitCode := some 1 }), (2, .ok { exitCode := some 0 })]
  let replayed := replay? lingerSetup events (State.start lingerSetup)
  let s := replayed.getD default
  have hreplay : replayed = some s := eq_some_getD (by decide +kernel)
  have hu : lingerSetup.Accepted := ⟨rfl⟩
  have henv : honestEnvironment.Honest := fun _ out hans => hans.2 out rfl
  have hquiet : ∀ c (code : Int), honestEnvironment.answers c (.ok { exitCode := some code }) :=
    fun _ _ => ⟨nofun, by rintro _ ⟨⟩ ⟨⟩⟩
  have hanswers : ∀ e ∈ events, ∀ c, c.stage = e.1 → honestEnvironment.answers c e.2 := by
    intro e he c _
    rcases List.mem_pair.1 he with rfl | rfl <;> exact hquiet c _
  have hx : Reachable lingerSetup honestEnvironment ⟨.waiting, s⟩ :=
    Reachable.replayed hanswers .refl hreplay
  have hflights : s.flights = [0] := by decide +kernel
  have hcomplete : s.run.isComplete = true := by decide +kernel
  have hbefore : s.run.cancelled = false := by decide +kernel
  have hfailed : RunStatus.ofOutcomes s.run.outcomes false = .failed := by decide +kernel
  clear_value s
  -- the request finds nothing to skip
  obtain ⟨t, hcancel, hwithdrawn⟩ :=
    cancel_ok honestEnvironment lingerSetup (s.wakeAt s.run.clock) hbefore
  have hbusy : s.inFlight ≠ [] := by
    intro hidle
    rw [State.flights, hidle] at hflights
    cases hflights
  have hat : CancelledAt lingerSetup honestEnvironment ⟨.waiting, s⟩ ⟨.head, t⟩ :=
    ⟨hx, .cancel trivial hbefore hbusy (Nat.le_refl _) hcancel, hbefore, hwithdrawn.still.cancelled⟩
  have hended : Ended s := ended_of_isComplete hcomplete
  have hanswer : ∀ c, ∃ result, honestEnvironment.answers c result := fun c => ⟨_, hquiet c 0⟩
  obtain ⟨z, hz, hr⟩ := ((hat.isOver hu).closed honestEnvironment).exists_return ⟨.head, t⟩
    fun c _ => hanswer c
  have hreached : Reachable lingerSetup honestEnvironment z := (hx.tail hat.step).trans hz
  have hexact := fun runId startedAt => late_cancels_exact hu hreached hr runId startedAt
  obtain ⟨_, hdecided, hnone⟩ := ((hexact default default).2 _ _ hat hz).2 hended
  obtain ⟨z', hz', hr'⟩ := hdecided.ends fun c _ => hanswer c
  obtain ⟨run, hrun, _, hstatus⟩ := hdecided.returns z' _ hz' hr'
  cases hrun
  refine ⟨_, _, z, z', hat, hflights, hended, hz, hr, hnone henv, hz', hr', ?_⟩
  refine fun runId startedAt => ⟨?_, ?_⟩
  · exact (hexact runId startedAt).1.2 ⟨_, _, hat, hz⟩
  · exact (hstatus runId startedAt).1.trans hfailed

end Scheduler
end Conveyor
