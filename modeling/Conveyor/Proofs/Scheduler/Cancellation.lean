import Conveyor.Proofs.Scheduler.Aftermath
import Conveyor.Proofs.Scheduler.Overlap
import Conveyor.Report.Basic

/-!
# Conveyor.Proofs.Scheduler.Cancellation

What a request to cancel does, in the step in which it comes and from then on.

The pass of a cancel spares no stage, so the state it leaves has none that has not ended. From
there nothing can be gated or started, no failure is recorded and no second request is looked at.
All that can still happen is that a command lands, and its result is dropped, whatever it is: the
outcomes, the outputs and what the observer was told stay as the cancel left them. The driver
returns when the last command has landed.

* `Cut`    — what the step leaves in which the cancel comes.
* `Over`   — the run is cancelled and every stage has ended.
* `Closed` — every stage has ended and no request to cancel is looked at, as it is when one came or
             none may come.
* `Fading` — nothing has happened between two states but that commands have landed.
* `Spent`  — what can still happen at a point where the run is over.
* `cancel_is_final` — the step of the cancel is a cut, and everything after it is spent.
-/

namespace Conveyor
namespace Scheduler

variable {u : Setup} {env : Environment} {s s' : State} {i : Nat} {stage : Stage} {o : Outcome}
  {x y z : Point}

/-! ## The step of the cancel -/

/-- The stages that had not ended are skipped, and nothing else has happened. -/
structure Cut (s s' : State) : Prop where
  ended : ∀ i o, s.run.outcome? i = some o → o.status.isTerminal = false →
    s'.run.outcome? i = some (o.skip .cancelled s'.run.clock)
  kept : ∀ i o, s.run.outcome? i = some o → o.status.isTerminal = true →
    s'.run.outcome? i = some o
  outputs : s'.run.outputs = s.run.outputs
  starts : s'.starts = s.starts
  flights : s'.flights = s.flights

theorem outputs_of_skips {test : Stage → Status → Bool} {reason : SkipReason}
    (h : Relation.ReflTransGen (Skips u test reason) s s') :
    s'.run.outputs = s.run.outputs := by
  induction h with
  | refl => rfl
  | tail _ hskip ih =>
    obtain ⟨_, _, _, _, _, _, rfl⟩ := hskip
    exact ih

theorem isAborted_false (stage : Stage) (status : Status) :
    isAborted false stage status = !status.isTerminal := by
  simp [isAborted]

theorem cut_of_cancel (hu : u.Accepted) (ht : Titled u s) {now : Nat}
    (hc : s.run.cancelled = false) (h : cancel u (s.wakeAt now) = .ok s') : Cut s s' := by
  have hwake : (s.wakeAt now).run.cancelled = false := hc
  obtain ⟨mid, hmid, hskips, hrest⟩ := abort_ok u (s.wakeAt now).ask .cancelled false
  simp only [cancel, hwake] at h
  obtain rfl : mid.fireSignals = s' := Except.ok.inj (hmid.symm.trans h)
  have hculled := culled_of_skips hu (fun _ _ => isAborted_open) hskips hrest
  have houtputs : mid.run.outputs = (s.wakeAt now).ask.run.outputs := outputs_of_skips hskips
  have hflights : mid.flights = s.flights := (still_of_skips hskips).flights
  refine ⟨?_, ?_, houtputs, hculled.starts, mid.flights_fireSignals.trans hflights⟩
  · intro i o ho hs
    obtain ⟨stage, hstage, _⟩ := ht.named i o ho
    rw [State.run_fireSignals, hculled.clock]
    exact hculled.hit i stage o hstage ho (by rw [isAborted_false, hs]; rfl)
  · intro i o ho hs
    obtain ⟨stage, hstage, _⟩ := ht.named i o ho
    exact hculled.missed i stage o hstage ho (by rw [isAborted_false, hs]; rfl)

/-- Only a cancel makes a run cancelled. -/
theorem Step.cut (hu : u.Accepted) (hx : Reachable u env x) (h : Step u env x y)
    (hbefore : x.state.run.cancelled = false) (hafter : y.state.run.cancelled = true) :
    Cut x.state y.state := by
  have hflips : y.state.run.cancelled ≠ x.state.run.cancelled := by
    rw [hbefore, hafter]
    exact Bool.noConfusion
  cases h with
  | begin | gated | full | again | settled => exact absurd rfl hflips
  | gate h => exact absurd (Gated.of_gateOne env h).still.cancelled hflips
  | dispatch hroom h =>
    rcases (Dispatched.of_dispatchOne env hroom h).launched with
      hstill | ⟨_, _, _, _, _, rfl⟩
    · exact absurd hstill.cancelled hflips
    · exact absurd rfl hflips
  | @join c _ now s _ hc hans _ h =>
    have hc' : c ∈ (s.wakeAt now).inFlight := hc
    exact absurd (Completed.of_complete hc' hans h).still.cancelled hflips
  | cancelEarly _ hc _ h | cancel _ hc _ _ h => exact cut_of_cancel hu hx.titled hc h

/-! ## After the cancel -/

structure Over (s : State) : Prop where
  cancelled : s.run.cancelled = true
  ended : ∀ i o, s.run.outcome? i = some o → o.status.isTerminal = true

theorem Reachable.over_of_cancelled (hu : u.Accepted) (h : Reachable u env x)
    (hc : x.state.run.cancelled = true) : Over x.state := by
  refine ⟨hc, ?_⟩
  intro i o ho
  obtain ⟨stage, hstage, _⟩ := h.titled.named i o ho
  exact h.quelled hc i (hu.mem_order hstage) stage o hstage ho

def Ended (s : State) : Prop := ∀ i o, s.run.outcome? i = some o → o.status.isTerminal = true

/-- Every stage has ended, and no request to cancel is looked at any more. -/
structure Closed (env : Environment) (s : State) : Prop where
  ended : Ended s
  deaf : env.cancels → s.run.cancelled = true

theorem Over.closed (h : Over s) (env : Environment) : Closed env s :=
  ⟨h.ended, fun _ => h.cancelled⟩

/-- A command lands, and its result is dropped. -/
def Lands (env : Environment) (s s' : State) : Prop :=
  ∃ c ∈ s.inFlight, ∃ result now, env.answers c result ∧ s.run.clock ≤ now ∧
    s' = (s.wakeAt now).land c.stage

namespace Closed

theorem status?_terminal (h : Closed env s) {status : Status} (hs : s.run.status? i = some status) :
    status.isTerminal = true := by
  obtain ⟨o, ho, rfl⟩ := outcome?_of_status? hs
  exact h.ended i o ho

theorem not_gatable (h : Closed env s) (i : Nat) : ¬ Gatable u s i := by
  intro hg
  cases h.status?_terminal hg.waits

theorem not_startable (h : Closed env s) (i : Nat) : ¬ Startable u s i := by
  intro hg
  cases h.status?_terminal hg.queued

theorem not_uncancelled (h : Closed env s) (henv : env.cancels) : s.run.cancelled ≠ false := by
  rw [h.deaf henv]
  exact Bool.noConfusion

/-- Whatever a command answers, nothing of it is recorded. -/
theorem complete_eq (h : Closed env s) (u : Setup) (i : Nat) (result : Except Error CommandOutput)
    (now : Nat) : complete u (s.wakeAt now) i result = .ok ((s.wakeAt now).land i) := by
  refine complete_idle fun o _ ho _ => ?_
  have ho : s.run.outcome? i = some o := ho
  exact ne_running_of_isTerminal (h.ended i o ho)

theorem step (hx : Closed env x.state) (h : Step u env x y) :
    y.state = x.state ∨ x.place = .waiting ∧ Lands env x.state y.state := by
  cases h with
  | begin | gated | full | again | settled => exact .inl rfl
  | gate h =>
    rw [gateOne_idle (hx.not_gatable _)] at h
    cases h
    exact .inl rfl
  | dispatch _ h =>
    rw [dispatchOne_idle (hx.not_startable _)] at h
    cases h
    exact .inl rfl
  | @join c result now _ _ hc hans hnow h =>
    have hx : Closed env _ := hx
    rw [hx.complete_eq] at h
    cases h
    exact .inr ⟨rfl, c, hc, result, now, hans, hnow, rfl⟩
  | cancelEarly henv hc | cancel henv hc => exact absurd hc (hx.not_uncancelled henv)

end Closed

structure Fading (s s' : State) : Prop where
  outcomes : s'.run.outcomes = s.run.outcomes
  outputs : s'.run.outputs = s.run.outputs
  cancelled : s'.run.cancelled = s.run.cancelled
  notices : s'.notices = s.notices
  inFlight : s'.inFlight.Sublist s.inFlight

namespace Fading

theorem refl (s : State) : Fading s s := ⟨rfl, rfl, rfl, rfl, .refl _⟩

theorem trans {s s' s'' : State} (h : Fading s s') (h' : Fading s' s'') : Fading s s'' :=
  ⟨h'.outcomes.trans h.outcomes, h'.outputs.trans h.outputs, h'.cancelled.trans h.cancelled,
    h'.notices.trans h.notices, h'.inFlight.trans h.inFlight⟩

theorem of_lands (h : Lands env s s') : Fading s s' := by
  obtain ⟨c, _, _, now, _, _, rfl⟩ := h
  exact ⟨rfl, rfl, rfl, rfl, List.filter_sublist⟩

theorem outcome?_eq (h : Fading s s') (i : Nat) : s'.run.outcome? i = s.run.outcome? i := by
  rw [Run.outcome?, h.outcomes]
  rfl

theorem ended (h : Fading s s') (hs : Ended s) : Ended s' :=
  fun i o ho => hs i o (h.outcome?_eq i ▸ ho)

end Fading

namespace Closed

theorem persists (hs : Closed env s) (h : Fading s s') : Closed env s' :=
  ⟨h.ended hs.ended, fun henv => h.cancelled.trans (hs.deaf henv)⟩

theorem fading_step (hx : Closed env x.state) (h : Step u env x y) : Fading x.state y.state := by
  rcases hx.step h with hsame | ⟨_, hlands⟩
  · rw [hsame]
    exact .refl _
  · exact .of_lands hlands

theorem fading (hy : Closed env y.state) (h : Steps u env y z) : Fading y.state z.state := by
  induction h with
  | refl => exact .refl _
  | tail _ hstep ih => exact ih.trans ((hy.persists ih).fading_step hstep)

end Closed

theorem Over.persists (hs : Over s) (h : Fading s s') : Over s' :=
  ⟨h.cancelled.trans hs.cancelled, h.ended hs.ended⟩

theorem Over.fading (hy : Over y.state) (h : Steps u env y z) : Fading y.state z.state :=
  (hy.closed env).fading h

/-! ## The end -/

namespace Closed

/-- Where the run is over and waits for nothing, it is returned. -/
theorem returns (h : Closed env s) (hidle : s.inFlight = []) :
    Returns u env ⟨.waiting, s⟩ (.ok s.run) :=
  .verdict (verdict?_idle hidle (isComplete_of_ended h.ended))

/-- Nothing goes wrong any more, so nothing is returned before the last command has landed. -/
theorem of_returns (hx : Closed env x.state) {result : Except Error Run}
    (h : Returns u env x result) : result = .ok x.state.run ∧ x.state.inFlight = [] := by
  cases h with
  | gate he =>
    rw [gateOne_idle (hx.not_gatable _)] at he
    cases he
  | dispatch _ he =>
    rw [dispatchOne_idle (hx.not_startable _)] at he
    cases he
  | join _ _ _ he =>
    have hx : Closed env _ := hx
    rw [hx.complete_eq] at he
    cases he
  | cancelEarly henv hc | cancel henv hc => exact absurd hc (hx.not_uncancelled henv)
  | @verdict s result hv =>
    cases hf : s.inFlight with
    | nil =>
      rw [verdict?_idle hf (isComplete_of_ended hx.ended)] at hv
      cases hv
      exact ⟨rfl, rfl⟩
    | cons c rest =>
      simp only [verdict?, hf] at hv
      cases hv

/-- If the commands in flight are done at some time, the run is returned at some time. -/
theorem exists_return : ∀ z : Point, Closed env z.state →
    (∀ c ∈ z.state.inFlight, ∃ result, env.answers c result) →
      ∃ last, Steps u env z last ∧ Returns u env last (.ok last.state.run) := by
  intro z
  induction z using (step_wellFounded u env).induction with
  | _ z ih =>
    intro hover hdone
    have hnext : ∀ y, Step u env z y →
        ∃ last, Steps u env z last ∧ Returns u env last (.ok last.state.run) := by
      intro y hzy
      have hfading := hover.fading_step hzy
      obtain ⟨last, hlast, hreturns⟩ := ih y hzy (hover.persists hfading)
        fun c hc => hdone c (hfading.inFlight.subset hc)
      exact ⟨last, .head hzy hlast, hreturns⟩
    obtain ⟨place, s⟩ := z
    by_cases hplace : place = .waiting
    · subst hplace
      cases hflight : s.inFlight with
      | nil => exact ⟨_, .refl, returns hover hflight⟩
      | cons c rest =>
        have hc : c ∈ s.inFlight := by rw [hflight]; exact List.mem_cons_self
        obtain ⟨result, hans⟩ := hdone c hc
        have hover : Closed env s := hover
        exact hnext _ (.join hc hans (Nat.le_refl _) (hover.complete_eq u c.stage result _))
    · obtain ⟨y, hzy⟩ := exists_step (x := ⟨place, s⟩) u env hplace
      exact hnext y hzy

end Closed

/-- What can still happen where the run is over. -/
structure Spent (u : Setup) (env : Environment) (z : Point) : Prop where
  /-- Nothing happens but that commands land. -/
  steps : ∀ z', Step u env z z' →
    z'.state = z.state ∨ z.place = .waiting ∧ Lands env z.state z'.state
  /-- Whatever a command answers, also what would have made the run unusable, is dropped. -/
  drops : ∀ c ∈ z.state.inFlight, ∀ result now,
    complete u (z.state.wakeAt now) c.stage result = .ok ((z.state.wakeAt now).land c.stage)
  /-- The run is returned when no command is in flight, as one that was cancelled. -/
  returns : ∀ result, Returns u env z result → result = .ok z.state.run ∧
    z.state.inFlight = [] ∧ ∀ runId startedAt,
      (Report.ofRun z.state.run runId startedAt).status = .cancelled ∧
        (Report.ofRun z.state.run runId startedAt).exitCode = 130
  ends : (∀ c ∈ z.state.inFlight, ∃ result, env.answers c result) →
    ∃ last, Steps u env z last ∧ Returns u env last (.ok last.state.run)

theorem status_ofRun {r : Run} (hc : r.cancelled = true) (runId : RunId) (startedAt : Timestamp) :
    (Report.ofRun r runId startedAt).status = .cancelled := by
  simp only [Report.ofRun, RunStatus.ofOutcomes, hc, if_true]

theorem Over.spent (h : Over z.state) : Spent u env z := by
  have hclosed := h.closed env
  refine ⟨fun _ => hclosed.step, fun c _ result now => hclosed.complete_eq u c.stage result now, ?_,
    hclosed.exists_return z⟩
  intro result hr
  obtain ⟨hresult, hidle⟩ := hclosed.of_returns hr
  refine ⟨hresult, hidle, ?_⟩
  intro runId startedAt
  have hstatus := status_ofRun h.cancelled runId startedAt
  exact ⟨hstatus, by rw [Report.exitCode, hstatus]; rfl⟩

/-- A request to cancel is never refused. In the step in which it comes, every stage that has not
ended is skipped as cancelled and every other one keeps its outcome. From then on no outcome
changes, nothing is published and no command is started; what the commands in flight answer is
dropped; and the run is returned when all of them are done, with a report that says cancelled. -/
theorem cancel_is_final (hu : u.Accepted) :
    (∀ (s : State) now, s.run.cancelled = false → ∃ s', cancel u (s.wakeAt now) = .ok s') ∧
    ∀ x y, Reachable u env x → Step u env x y → x.state.run.cancelled = false →
      y.state.run.cancelled = true → Cut x.state y.state ∧
        ∀ z, Steps u env y z → Fading y.state z.state ∧ Spent u env z := by
  constructor
  · intro s now hc
    obtain ⟨s', hs', _⟩ := cancel_ok env u (s.wakeAt now) hc
    exact ⟨s', hs'⟩
  · intro x y hx hxy hbefore hafter
    have hy : Reachable u env y := hx.tail hxy
    have hover : Over y.state := hy.over_of_cancelled hu hafter
    refine ⟨hxy.cut hu hx hbefore hafter, ?_⟩
    intro z hz
    have hfading := hover.fading hz
    exact ⟨hfading, (hover.persists hfading).spent⟩

/-- A run that is cancelled when one command lingers after a fail-fast and another runs. -/
theorem cancel_is_final_linger : ∃ x y last,
    Reachable lingerSetup freeEnvironment x ∧ Step lingerSetup freeEnvironment x y ∧
      x.state.run.cancelled = false ∧ y.state.run.cancelled = true ∧
      x.state.flights = [0, 2] ∧ x.state.run.status? 0 = some .skipped ∧
      x.state.run.status? 2 = some .running ∧ Steps lingerSetup freeEnvironment y last ∧
      Returns lingerSetup freeEnvironment last (.ok last.state.run) ∧
      last.state.run.outcome? 0 = x.state.run.outcome? 0 ∧
      last.state.run.status? 2 = some .skipped := by
  let started := left (settle lingerSetup (State.start lingerSetup))
  let failed := left (complete lingerSetup (started.wakeAt 1) 1 (.ok { exitCode := some 1 }))
  let s := left (settle lingerSetup failed)
  let t := left (cancel lingerSetup (s.wakeAt 2))
  have hu : lingerSetup.Accepted := ⟨rfl⟩
  have h₁ : Reachable lingerSetup freeEnvironment ⟨.waiting, started⟩ :=
    Reachable.settled .refl (eq_ok_left (by decide +kernel))
  obtain ⟨c, hc, hstage⟩ : ∃ c ∈ started.inFlight, c.stage = 1 := by decide +kernel
  have hclock : started.run.clock ≤ 1 := by decide +kernel
  have h₂ : Reachable lingerSetup freeEnvironment ⟨.waiting, s⟩ :=
    (h₁.joined ⟨c, hc, hstage, fun _ h => by cases h⟩ hclock
      (eq_ok_left (by decide +kernel))).settled (eq_ok_left (by decide +kernel))
  have hflights : s.flights = [0, 2] := by decide +kernel
  have hstatus : s.run.status? 0 = some .skipped ∧ s.run.status? 2 = some .running := by
    decide +kernel
  have hcancelled : s.run.cancelled = false ∧ t.run.cancelled = true := by decide +kernel
  have hclock' : s.run.clock ≤ 2 := by decide +kernel
  have hcancel : cancel lingerSetup (s.wakeAt 2) = .ok t := eq_ok_left (by decide +kernel)
  clear_value s t
  have hbusy : s.inFlight ≠ [] := by
    intro hidle
    rw [State.flights, hidle] at hflights
    cases hflights
  have hstep : Step lingerSetup freeEnvironment ⟨.waiting, s⟩ ⟨.head, t⟩ :=
    .cancel trivial hcancelled.1 hbusy hclock' hcancel
  obtain ⟨hcut, hlater⟩ :=
    (cancel_is_final hu).2 _ _ h₂ hstep hcancelled.1 hcancelled.2
  obtain ⟨last, hlast, hreturns⟩ :=
    (hlater _ .refl).2.ends fun _ _ => ⟨.ok {}, fun _ h => by cases h⟩
  have hfading := (hlater last hlast).1
  obtain ⟨o, ho, hs⟩ := outcome?_of_status? hstatus.1
  obtain ⟨a, ha, hs'⟩ := outcome?_of_status? hstatus.2
  have hkept := hcut.kept 0 o ho (by rw [hs]; rfl)
  have hended := hcut.ended 2 a ha (by rw [hs']; rfl)
  refine ⟨_, _, last, h₂, hstep, hcancelled.1, hcancelled.2, hflights, hstatus.1, hstatus.2,
    hlast, hreturns, ?_, ?_⟩
  · exact (hfading.outcome?_eq 0).trans (hkept.trans ho.symm)
  · rw [Run.status?, hfading.outcome?_eq 2, hended]
    rfl

end Scheduler
end Conveyor
