import Conveyor.Proofs.Scheduler.FailFast
import Conveyor.Proofs.Scheduler.Signals

/-!
# Conveyor.Proofs.Scheduler.Skips

Why a stage was skipped.

A reason is written once, by a gate, a failure, a cancel, or a command that was stopped, and is
never looked at again. It stays true: what a gate was told does not change, a stage that has failed
stays so, and neither a start nor a cancel is taken back.

A stage whose command says that it was stopped is skipped as cancelled, whether or not the run was
cancelled. Honest commands say so only when they were told to stop. By then their stage has ended,
and the result is dropped, so with honest commands no stage is skipped in this way.

* `Environment.Honest` — commands say that they were stopped only when they were told to.
* `Felled`             — a failure took the stage along.
* `Truthful`           — what a reason says about the run.
* `skip_reasons_true`  — every reason that is recorded at the end of a run is true.
-/

namespace Conveyor
namespace Scheduler

variable {u : Setup} {env : Environment} {s s' : State} {i : Nat} {stage : Stage}
  {o o' : Outcome} {x y : Point} {reason : SkipReason}

/-! ## Honest commands -/

namespace Environment

/-- Commands say that they were stopped only when they were told to. -/
def Honest (env : Environment) : Prop :=
  ∀ c out, env.answers c (.ok out) → out.cancelled = true → c.abortedAt.isSome = true

/-- The same world, in which no command says that it was stopped. -/
def unstopped (env : Environment) : Environment where
  answers c result := env.answers c result ∧ ∀ out, result = .ok out → out.cancelled = false
  cancels := env.cancels

end Environment

/-- If commands are honest, no step applies a result that says its command was stopped. -/
theorem unstopped_of_step (hu : u.Accepted) (henv : env.Honest) (hx : Reachable u env x)
    (h : Step u env x y) : Moves u env.unstopped x.state y.state := by
  have htuned := hx.tuned hu
  cases h with
  | begin | gated | full | again | settled => exact .refl
  | gate h => exact (Gated.of_gateOne env.unstopped h).moves
  | dispatch hroom h => exact (Dispatched.of_dispatchOne env.unstopped hroom h).moves
  | @join c result now s s' hc hans hnow h =>
    have hc' : c ∈ (s.wakeAt now).inFlight := hc
    refine Relation.ReflTransGen.head (.wake hnow) ?_
    by_cases hrun : s.run.status? c.stage = some .running
    · -- a command whose stage runs was not told to stop
      have hquiet : ∀ out, result = .ok out → out.cancelled = false := by
        rintro out rfl
        refine Bool.eq_false_iff.2 fun hcancelled => ?_
        have htold := henv c out hans hcancelled
        rw [(htuned.running c hc).2 hrun] at htold
        cases htold
      have hans' : env.unstopped.answers c result := ⟨hans, hquiet⟩
      exact (Completed.of_complete hc' hans' h).moves
    · have hidle : ∀ o stage, (s.wakeAt now).run.outcome? c.stage = some o →
          u.stage? c.stage = some stage → o.status ≠ .running := by
        intro o _ ho _ hs
        have ho' : s.run.outcome? c.stage = some o := ho
        exact hrun (by rw [Run.status?, ho', Option.map_some, hs])
      rw [complete_idle hidle] at h
      cases h
      exact .single (.drop hc' hidle)
  | @cancelEarly now s s' hcancels hc hnow h | @cancel now s s' hcancels hc _ hnow h =>
    have hc' : (s.wakeAt now).run.cancelled = false := hc
    exact ((Withdrawn.of_cancel env.unstopped hc' h).moves hcancels).head (.wake hnow)

theorem Reachable.unstopped (hu : u.Accepted) (henv : env.Honest) (hx : Reachable u env x) :
    Moves u env.unstopped (State.start u) x.state := by
  induction hx with
  | refl => exact .refl
  | tail hx hstep ih => exact ih.trans (unstopped_of_step hu henv hx hstep)

/-! ## What is never taken back -/

def Logged (s : State) : Prop := ∀ i ∈ s.flights, i ∈ s.starts

theorem Logged.move (h : Logged s) (hm : Move u env s s') : Logged s' := by
  cases hm with
  | launch =>
    intro j hj
    rw [State.flights_launch, List.mem_append, List.mem_singleton] at hj
    rw [State.starts_launch]
    rcases hj with hj | rfl
    · exact List.mem_cons_of_mem _ (h j hj)
    · exact List.mem_cons_self
  | drop =>
    intro j hj
    rw [State.flights_land, List.mem_filter] at hj
    exact h j hj.1
  | @finish i =>
    intro j hj
    have hj' : j ∈ (s.land i).flights := hj
    rw [State.flights_land, List.mem_filter] at hj'
    exact h j hj'.1
  | signal =>
    intro j hj
    rw [State.flights_fireSignals] at hj
    exact h j hj
  | enqueue | unready | conclude | ask | wake => exact h

theorem Move.mem_starts_iff (h : Move u env s s') (ho' : s'.run.outcome? i = some o')
    (hs' : o'.status ≠ .running) : i ∈ s'.starts ↔ i ∈ s.starts := by
  cases h with
  | @launch j _ o _ _ ho =>
    rw [State.run_launch, Run.outcome?_setOutcome ho] at ho'
    rw [State.starts_launch, List.mem_cons, or_iff_right]
    rintro rfl
    rw [if_pos rfl] at ho'
    cases ho'
    exact hs' rfl
  | _ => exact Iff.rfl

/-! ## Reasons -/

/-- Another stage, with this name, has failed and must not. Either it took the stage along in
their group, before the stage was started, or the whole run fails fast. -/
def Felled (u : Setup) (run : Run) (starts : List Nat) (i : Nat) (stage : Stage) (name : String) :
    Prop :=
  ∃ f cause, f ≠ i ∧ u.stage? f = some cause ∧ cause.name = name ∧ cause.allowFailure = false ∧
    run.status? f = some .failed ∧
    (Grouped u i cause ∧ stage.onFailure ≠ .always ∧ i ∉ starts ∨
      u.pipeline.settings.failFast = true ∧ (i ∈ starts ∨ stage.onFailure ≠ .always))

/-- What the reason for which a stage was skipped says about the run. -/
def Truthful (u : Setup) (run : Run) (starts : List Nat) (i : Nat) (stage : Stage) :
    SkipReason → Prop
  | .failFast name => Felled u run starts i stage name
  | .cancelled => run.cancelled = true
  | reason => i ∉ starts ∧ ∃ deps, run.dependencies? i = some deps ∧
      Gate.decide u.trigger stage deps = .ok (.skip reason)

theorem truthful_of_gate (hnew : i ∉ s.starts) {deps : Dependencies}
    (hdeps : s.run.dependencies? i = some deps)
    (hgate : Gate.decide u.trigger stage deps = .ok (.skip reason)) :
    Truthful u s.run s.starts i stage reason := by
  have hown := Gate.ofGate_of_decide hgate
  cases reason with
  | failFast | cancelled => cases hown
  | dependencyNotSucceeded | eventFiltered | branchFiltered | conditionFalse =>
    exact ⟨hnew, deps, hdeps, hgate⟩

theorem Truthful.move (h : Truthful u s.run s.starts i stage reason) (hm : Move u env s s')
    (hstarts : i ∈ s'.starts ↔ i ∈ s.starts) : Truthful u s'.run s'.starts i stage reason := by
  cases reason with
  | failFast =>
    obtain ⟨f, cause, hne, hcause, hname, hallow, hs, hwhy⟩ := h
    obtain ⟨o, ho, hfailed⟩ := outcome?_of_status? hs
    have hkept := hm.kept ho (by rw [hfailed]; rfl)
    refine ⟨f, cause, hne, hcause, hname, hallow, ?_, ?_⟩
    · rw [Run.status?, hkept, Option.map_some, hfailed]
    · rw [hstarts]
      exact hwhy
  | cancelled => exact hm.cancelled h
  | dependencyNotSucceeded | eventFiltered | branchFiltered | conditionFalse =>
    obtain ⟨hnew, deps, hdeps, hgate⟩ := h
    exact ⟨fun hi => hnew (hstarts.1 hi), deps, hm.dependencies? hdeps, hgate⟩

theorem Traffic.not_mem_starts (h : Traffic u s) (ho : s.run.outcome? i = some o)
    (hs : o.status.waits = true) : i ∉ s.starts := by
  intro hi
  obtain ⟨o', ho', hs'⟩ := h.started i hi
  rw [ho] at ho'
  cases ho'
  rw [hs] at hs'
  cases hs'

theorem felled_of_falls (ht : Traffic u s) (hl : Logged s) (ho : s.run.outcome? i = some o)
    (hstage : u.stage? i = some stage) {cause : Stage} (hopen : o.status.isTerminal = false)
    (hcause : HasFailed u s cause) (hfall : Falls u cause stage o.status) :
    Felled u s.run s.starts i stage cause.name := by
  obtain ⟨f, a, hf, ha, hfailed, hallow⟩ := hcause
  have hne : f ≠ i := by
    rintro rfl
    rw [ho] at ha
    cases ha
    rw [hfailed] at hopen
    cases hopen
  refine ⟨f, cause, hne, hf, rfl, hallow, by rw [Run.status?, ha, Option.map_some, hfailed], ?_⟩
  cases hs : o.status.waits with
  | true =>
    have hpolicy := hfall.ne_always hs
    exact (hfall.cases hstage).symm.imp (fun hgroup => ⟨hgroup.1, hpolicy, ht.not_mem_starts ho hs⟩)
      fun hff => ⟨hff, .inr hpolicy⟩
  | false =>
    have hrun := Status.running_of_open hopen hs
    rcases hfall.cases hstage with hff | ⟨_, hp | hq⟩
    · exact .inr ⟨hff, .inl (hl i (ht.running i o ho hrun))⟩
    · rw [hrun] at hp
      cases hp
    · rw [hrun] at hq
      cases hq

/-- Every stage that is skipped has a reason, and it is true. -/
def Reasoned (u : Setup) (s : State) : Prop :=
  ∀ i stage o, u.stage? i = some stage → s.run.outcome? i = some o → o.status = .skipped →
    ∃ reason, o.skipReason = some reason ∧ Truthful u s.run s.starts i stage reason

theorem reasoned_start (u : Setup) : Reasoned u (State.start u) := by
  intro i stage o _ ho hs
  obtain ⟨_, _, rfl⟩ := outcome_of_start ho
  cases hs

theorem Ends.truthful (h : Ends u s i stage o o') (ht : Traffic u s) (hl : Logged s)
    (ho : s.run.outcome? i = some o) (hstage : u.stage? i = some stage)
    (hs' : o'.status = .skipped) :
    ∃ reason, o'.skipReason = some reason ∧ Truthful u s.run s.starts i stage reason := by
  cases h with
  | refuse hs hdeps hgate =>
    have hnew : i ∉ s.starts := ht.not_mem_starts ho (by rw [hs]; rfl)
    exact ⟨_, rfl, truthful_of_gate hnew hdeps hgate⟩
  | misgate => cases hs'
  | fall hopen hcause hfall =>
    exact ⟨_, rfl, felled_of_falls ht hl ho hstage hopen hcause hfall⟩
  | withdraw _ hc => exact ⟨_, rfl, hc⟩

theorem Outcome.close_ne_skipped {result : Except Error CommandOutput}
    (h : ∀ out, result = .ok out → out.cancelled = false) (o : Outcome) (stage : Stage)
    (now : Nat) : (o.close stage result now).status ≠ .skipped := by
  cases result with
  | error e => simp [Outcome.close]
  | ok out =>
    simp only [Outcome.close, h out rfl]
    split <;> simp

theorem Reasoned.move (h : Reasoned u s) (ht : Traffic u s) (hl : Logged s)
    (hm : Move u env.unstopped s s') : Reasoned u s' := by
  intro i stage o' hstage ho' hs'
  have hstarts := hm.mem_starts_iff ho' (by rw [hs']; nofun)
  have hold : ∃ reason, o'.skipReason = some reason ∧
      Truthful u s.run s.starts i stage reason := by
    rcases hm.outcome? ho' with ho | ⟨stage', o, ho, hstage', hlife⟩
    · exact h i stage o' hstage ho hs'
    · rw [hstage] at hstage'
      cases hstage'
      cases hlife with
      | enqueue | launch | unready => cases hs'
      | finish _ _ _ hans => exact absurd hs' (Outcome.close_ne_skipped hans.2 _ _ _)
      | ends hend => exact hend.truthful ht hl ho hstage hs'
  obtain ⟨reason, hreason, htrue⟩ := hold
  exact ⟨reason, hreason, htrue.move hm hstarts⟩

theorem Reachable.reasoned (hu : u.Accepted) (henv : env.Honest) (hx : Reachable u env x) :
    Reasoned u x.state := by
  have hall : ∀ s', Moves u env.unstopped (State.start u) s' →
      Traffic u s' ∧ Logged s' ∧ Reasoned u s' := by
    intro s' h
    induction h with
    | refl => exact ⟨traffic_start u, nofun, reasoned_start u⟩
    | tail _ hm ih =>
      obtain ⟨ht, hl, hr⟩ := ih
      exact ⟨ht.move hm, hl.move hm, hr.move ht hl hm⟩
  exact (hall _ (hx.unstopped hu henv)).2.2

/-! ## The end of a run -/

theorem Returns.run_eq {run : Run} (h : Returns u env x (.ok run)) : run = x.state.run := by
  cases h with
  | verdict hv =>
    rw [verdict?] at hv
    split at hv
    · split at hv <;> cases hv
      rfl
    · cases hv

/-- In whatever order commands are done, whenever the run is cancelled and however often it fails
fast, every stage that is skipped in the run that is returned has a reason, and the reason is true
of that run. -/
theorem skip_reasons_true (hu : u.Accepted) (henv : env.Honest) (hx : Reachable u env x)
    {run : Run} (hr : Returns u env x (.ok run)) (ho : run.outcome? i = some o)
    (hs : o.status = .skipped) :
    ∃ stage reason, u.stage? i = some stage ∧ o.skipReason = some reason ∧
      Truthful u run x.state.starts i stage reason := by
  obtain rfl := hr.run_eq
  obtain ⟨stage, hstage, _⟩ := hx.titled.named i o ho
  obtain ⟨reason, hreason, htrue⟩ := hx.reasoned hu henv i stage o hstage ho hs
  exact ⟨stage, reason, hstage, hreason, htrue⟩

/-- Commands may answer with anything that is not fatal, and say that they were stopped if they
were told to. The run may be cancelled. -/
def honestEnvironment : Environment where
  answers c result := (∀ e, result = .error e → e.isFatal = false) ∧
    ∀ out, result = .ok out → out.cancelled = true → c.abortedAt.isSome = true
  cancels := True

/-- Two stages of a group, of which one can run at a time, one for another event, one behind the
first, and one that nothing stops but a cancel. -/
def checksSetup : Setup where
  pipeline :=
    { name := "p"
      stages :=
        [ { name := "lint", run := .script "lint", failFastGroup := some "checks" },
          { name := "types", run := .script "check", failFastGroup := some "checks" },
          { name := "nightly", run := .script "soak", conditions := { events := [.schedule] } },
          { name := "package", run := .script "pack", dependsOn := ["lint"] },
          { name := "bench", run := .script "bench" } ] }
  graph :=
    { names := ["lint", "types", "nightly", "package", "bench"]
      places := .ofList
        [("lint", 0), ("types", 1), ("nightly", 2), ("package", 3), ("bench", 4)]
      edges := [(0, 3)]
      predecessors := [[], [], [], [0], []]
      successors := [[3], [], [], [], []] }
  trigger := { event := .push, ref := "main" }
  provider := fun _ => none
  maxParallel := some 1
  hostWorkers := 4
  runId := "r"

/-- The first stage fails, and the run is cancelled while the last one runs. Every other stage is
skipped, each for its own reason. -/
theorem skip_reasons_true_checks : ∃ x run, Reachable checksSetup honestEnvironment x ∧
    Returns checksSetup honestEnvironment x (.ok run) ∧ x.state.starts = [4, 0] ∧
      (∃ stage, Truthful checksSetup run [4, 0] 1 stage (.failFast "lint")) ∧
      (∃ stage, Truthful checksSetup run [4, 0] 2 stage .eventFiltered) ∧
      (∃ stage, Truthful checksSetup run [4, 0] 3 stage (.dependencyNotSucceeded "lint")) ∧
      ∃ stage, Truthful checksSetup run [4, 0] 4 stage .cancelled := by
  let started := left (settle checksSetup (State.start checksSetup))
  let failed := left (settle checksSetup
    (left (complete checksSetup (started.wakeAt 1) 0 (.ok { exitCode := some 1 }))))
  let withdrawn := left (settle checksSetup (left (cancel checksSetup (failed.wakeAt 2))))
  let stopped : CommandOutput := { cancelled := true }
  let final := left (settle checksSetup
    (left (complete checksSetup (withdrawn.wakeAt 3) 4 (.ok stopped))))
  have hu : checksSetup.Accepted := ⟨rfl⟩
  have henv : honestEnvironment.Honest := fun _ out hans => hans.2 out rfl
  have h₁ : Reachable checksSetup honestEnvironment ⟨.waiting, started⟩ :=
    Reachable.settled .refl (eq_ok_left (by decide +kernel))
  obtain ⟨c, hc, hstage⟩ : ∃ c ∈ started.inFlight, c.stage = 0 := by decide +kernel
  have hans : honestEnvironment.answers c (.ok { exitCode := some 1 }) :=
    ⟨nofun, by rintro _ ⟨⟩ ⟨⟩⟩
  have h₂ : Reachable checksSetup honestEnvironment ⟨.waiting, failed⟩ :=
    (h₁.joined ⟨c, hc, hstage, hans⟩ (by decide +kernel : started.run.clock ≤ 1)
      (eq_ok_left (by decide +kernel))).settled (eq_ok_left (by decide +kernel))
  have hbusy : failed.inFlight ≠ [] := by decide +kernel
  have h₃ : Reachable checksSetup honestEnvironment ⟨.waiting, withdrawn⟩ :=
    Reachable.settled (h₂.tail (.cancel trivial (by decide +kernel) hbusy
      (by decide +kernel : failed.run.clock ≤ 2) (eq_ok_left (by decide +kernel))))
      (eq_ok_left (by decide +kernel))
  obtain ⟨c', hc', hstage', htold⟩ : ∃ c ∈ withdrawn.inFlight, c.stage = 4 ∧
      c.abortedAt.isSome = true := by decide +kernel
  have hans' : honestEnvironment.answers c' (.ok stopped) :=
    ⟨nofun, fun _ _ _ => htold⟩
  have h₄ : Reachable checksSetup honestEnvironment ⟨.waiting, final⟩ :=
    (h₃.joined ⟨c', hc', hstage', hans'⟩ (by decide +kernel : withdrawn.run.clock ≤ 3)
      (eq_ok_left (by decide +kernel))).settled (eq_ok_left (by decide +kernel))
  have hr : Returns checksSetup honestEnvironment ⟨.waiting, final⟩ (.ok final.run) :=
    .verdict (verdict?_idle (by decide +kernel) (by decide +kernel))
  have hstarts : final.starts = [4, 0] := by decide +kernel
  have hskipped : ∀ i ∈ [1, 2, 3, 4], final.run.status? i = some .skipped := by decide +kernel
  have hreasons : [1, 2, 3, 4].map (fun i => (final.run.outcome? i).bind (·.skipReason)) =
      [some (.failFast "lint"), some .eventFiltered, some (.dependencyNotSucceeded "lint"),
        some .cancelled] := by decide +kernel
  clear_value final
  have htrue : ∀ i ∈ [1, 2, 3, 4], ∀ reason,
      (final.run.outcome? i).bind (·.skipReason) = some reason →
      ∃ stage, Truthful checksSetup final.run [4, 0] i stage reason := by
    intro i hi reason hreason
    obtain ⟨o, ho, hs⟩ := outcome?_of_status? (hskipped i hi)
    obtain ⟨stage, own, _, hown, htrue⟩ :=
      @skip_reasons_true checksSetup honestEnvironment i o _ hu henv h₄ _ hr ho hs
    rw [ho, Option.bind_some, hown] at hreason
    cases hreason
    exact ⟨stage, hstarts ▸ htrue⟩
  simp only [List.map_cons, List.map_nil, List.cons.injEq] at hreasons
  obtain ⟨hgroup, hevent, hblocked, hcancel, _⟩ := hreasons
  exact ⟨_, _, h₄, hr, hstarts, htrue 1 (by simp) _ hgroup, htrue 2 (by simp) _ hevent,
    htrue 3 (by simp) _ hblocked, htrue 4 (by simp) _ hcancel⟩

end Scheduler
end Conveyor
