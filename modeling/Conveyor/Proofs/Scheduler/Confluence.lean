import Conveyor.Proofs.Scheduler.Completion
import Conveyor.Proofs.Scheduler.Sequential

/-!
# Conveyor.Proofs.Scheduler.Confluence

Without fail-fast the outcomes of a run do not depend on how it is scheduled.

Every outcome that is final is the verdict of the sequential evaluation (`Agrees`). The gate of a
stage is asked when its dependencies have ended, its inputs are read after that, and what a stage
leaves when it ends stays as it is. So all that is read on the way is already what the whole
table says.

* `Setup.Patient`       — no failure takes another stage along.
* `fixedEnvironment`    — every command has its result, and the run is not cancelled.
* `runOf?`              — the run that comes of an order of these results.
* `Agrees`              — the invariant.
* `outcomes_sequential` — a run returns the verdicts of the sequential evaluation.
-/

namespace Conveyor

/-- The part of an outcome that is not about time. -/
def Outcome.verdict (o : Outcome) : Scheduler.Verdict where
  status := o.status
  skipReason := o.skipReason
  error := o.error
  exitCode := o.exitCode
  outputs := o.outputs

namespace Scheduler

variable {u : Setup} {env : Environment} {s s' : State} {i : Nat} {stage cause : Stage}
  {o o' : Outcome} {x : Point} {results : Nat → Except Error CommandOutput}

/-- What a run is driven with, but for workers and the name of the run. -/
def Setup.givens (u : Setup) (results : Nat → Except Error CommandOutput) : Givens where
  pipeline := u.pipeline
  graph := u.graph
  trigger := u.trigger
  provider := u.provider
  results

/-- Every command has its result, and no cancel comes. -/
def fixedEnvironment (results : Nat → Except Error CommandOutput) : Environment where
  answers c result := result = results c.stage
  cancels := False

/-- What a run comes to when its commands are done in this order; nothing if it is not over by
then. -/
def runOf? (u : Setup) (results : Nat → Except Error CommandOutput) (order : List Nat) :
    Option Run :=
  ((replay? u (order.map fun i => (i, results i)) (State.start u)).filter fun s =>
    s.inFlight.isEmpty && s.run.isComplete).map (·.run)

theorem returns_of_runOf? {order : List Nat} {run : Run} (h : runOf? u results order = some run) :
    ∃ x, Reachable u (fixedEnvironment results) x ∧
      Returns u (fixedEnvironment results) x (.ok run) := by
  obtain ⟨s, hfilter, rfl⟩ := Option.map_eq_some_iff.1 h
  obtain ⟨hreplay, hover⟩ := Option.filter_eq_some_iff.1 hfilter
  obtain ⟨hidle, hcomplete⟩ := Bool.and_eq_true_iff.1 hover
  refine ⟨⟨.waiting, s⟩, Reachable.replayed ?_ .refl hreplay,
    .verdict (verdict?_idle (List.isEmpty_iff.1 hidle) hcomplete)⟩
  intro e he c hc
  obtain ⟨i, _, rfl⟩ := List.mem_map.1 he
  exact congrArg results hc.symm

/-- No failure takes another stage along. -/
structure Setup.Patient (u : Setup) : Prop where
  alone : u.pipeline.settings.failFast = false
  ungrouped : ∀ stage ∈ u.pipeline.stages, stage.failFastGroup = none

theorem Setup.Patient.not_falls {status : Status} (h : u.Patient) (hcause : HasFailed u s cause) :
    ¬ Falls u cause stage status := by
  rintro (⟨group, hgroup, _⟩ | ⟨hff, _⟩)
  · obtain ⟨j, _, hj, _⟩ := hcause
    rw [h.ungrouped cause (List.mem_of_getElem? hj)] at hgroup
    cases hgroup
  · rw [h.alone] at hff
    cases hff

/-! ## Verdicts of outcomes -/

theorem Outcome.verdict_asDependency (o : Outcome) :
    o.verdict.asDependency o.optional = o.asDependency := by
  cases hs : o.status <;>
    simp only [Verdict.asDependency, Outcome.verdict, Outcome.asDependency, hs]

theorem verdict_skip (ho : o.Blank) (reason : SkipReason) (now : Nat) :
    (o.skip reason now).verdict = .skipped reason := by
  simp only [Outcome.verdict, Outcome.skip, ho.error, ho.exitCode, ho.outputs]
  rfl

theorem verdict_fail (ho : o.Blank) (e : Error) (now : Nat) :
    (o.fail e now).verdict = .failed e := by
  simp only [Outcome.verdict, Outcome.fail, ho.skipReason, ho.error, ho.exitCode, ho.outputs]
  rfl

theorem verdict_close (ho : o.Blank) (stage : Stage) (result : Except Error CommandOutput)
    (now : Nat) : (o.close stage result now).verdict = .ofResult stage result := by
  cases result with
  | error e => exact verdict_fail ho e now
  | ok out =>
    simp only [Outcome.close, Verdict.ofResult]
    split
    · simp only [Outcome.verdict, Outcome.succeed, Outcome.log, ho.skipReason, ho.error]
    · split
      · simp only [Outcome.verdict, Outcome.skip, Outcome.log, ho.error, ho.outputs]
        rfl
      · simp only [Outcome.verdict, Outcome.fail, Outcome.log, ho.skipReason, ho.error,
          ho.outputs]
        rfl

/-! ## Agreement with the sequential evaluation -/

structure Agrees (u : Setup) (results : Nat → Except Error CommandOutput) (s : State) :
    Prop where
  ended : ∀ i o, s.run.outcome? i = some o → o.status.isTerminal = true →
    (u.givens results).sequential.lookup i = some o.verdict
  /-- A running stage could be prepared. -/
  ready : ∀ i o stage, s.run.outcome? i = some o → o.status = .running →
    u.stage? i = some stage →
      (u.givens results).ready (u.givens results).sequential stage = .ok ()
  calm : s.run.cancelled = false

namespace Agrees

theorem dependencies_eq (h : Agrees u results s) (ht : Titled u s)
    (hg : u.graph.Describes u.pipeline.stages) {deps : Dependencies}
    (hdeps : s.run.dependencies? i = some deps) :
    (u.givens results).dependencies (u.givens results).sequential i = deps := by
  rw [Run.dependencies?, ht.graph] at hdeps
  rw [Givens.dependencies]
  refine Run.filterMap_of_dependencyOutcomes? ?_ hdeps
  intro d a dep ha hdep
  obtain ⟨stage, hstage, _, hopt⟩ := ht.named d a ha
  have hs : a.status.isTerminal = true := by rw [← a.asDependency_isSome, hdep]; rfl
  have hv : a.verdict.asDependency stage.allowFailure = some dep := by
    rw [← hopt, Outcome.verdict_asDependency, hdep]
  have hstage' : (u.givens results).pipeline.stages[d]? = some stage := hstage
  rw [hstage', h.ended d a ha hs, ht.graph_name hg hstage]
  simp only [hv, Option.map_some]

theorem read_eq (h : Agrees u results s) (ht : Titled u s) (hl : Ledger u s)
    (hg : u.graph.Describes u.pipeline.stages) {r : OutputRef} {d : Nat}
    (hd : u.graph.index? r.stage = some d) (ho : s.run.outcome? d = some o)
    (hs : o.status.isTerminal = true) (consumer : String) :
    s.run.outputs.resolveInput consumer s.run.statusOf? r =
      (u.givens results).read (u.givens results).sequential consumer r := by
  have hname : o.name = r.stage := by
    obtain ⟨stage, hstage, hn⟩ := hg.index?_eq_some_iff.1 hd
    exact (ht.name_eq hstage ho).trans hn
  have hstatus : s.run.statusOf? r.stage = some o.status := by
    rw [Run.statusOf?, Run.outcomeByName?, ht.graph, hd, Option.bind_some, ho, Option.map_some]
  have hpublished := h.ended d o ho hs
  have houtputs := hl.published d o ho
  rw [hname] at houtputs
  have hrun : s.run.outputs.resolveInput consumer s.run.statusOf? r =
      s.run.outputs.resolve consumer r o.status := by
    simp only [OutputStore.resolveInput, hstatus]
  have htable : (u.givens results).read (u.givens results).sequential consumer r =
      o.verdict.read consumer r := by
    have hgraph : (u.givens results).graph = u.graph := rfl
    simp only [Givens.read, hgraph, hd, Option.bind_some, hpublished]
  rw [hrun, htable]
  cases hst : o.status with
  | succeeded =>
    cases hget : o.outputs.get? r.key <;>
      simp only [OutputStore.resolve, Verdict.read, Outcome.verdict, houtputs, hst, hget, if_true,
        Option.bind_some]
  | failed | skipped | pending | queued | running =>
    simp only [OutputStore.resolve, Verdict.read, Outcome.verdict, hst]

theorem readAll_eq {g : Givens} {t : Table} {store : OutputStore} {consumer : String}
    {statusOf : String → Option Status} : ∀ {l : List (String × OutputRef)},
    (∀ e ∈ l, store.resolveInput consumer statusOf e.2 = g.read t consumer e.2) →
      (store.resolveEntries consumer statusOf l).map (fun _ => ()) = g.readAll t consumer l := by
  intro l
  induction l with
  | nil => intro _; rfl
  | cons e rest ih =>
    intro h
    have hrest := ih fun e he => h e (List.mem_cons_of_mem _ he)
    simp only [OutputStore.resolveEntries, Givens.readAll, ← hrest, ← h e List.mem_cons_self]
    cases store.resolveInput consumer statusOf e.2 with
    | error flaw => rfl
    | ok value => cases store.resolveEntries consumer statusOf rest <;> rfl

theorem ready_eq (h : Agrees u results s) (ht : Titled u s) (hl : Ledger u s)
    (hg : u.graph.Describes u.pipeline.stages) (hstage : u.stage? i = some stage)
    (hknown : (s.run.dependencies? i).isSome = true) :
    (prepare u s stage).map (fun _ => ()) =
      (u.givens results).ready (u.givens results).sequential stage := by
  have hreads : ∀ e ∈ stage.inputs.entries,
      s.run.outputs.resolveInput stage.name s.run.statusOf? e.2 =
        (u.givens results).read (u.givens results).sequential stage.name e.2 := by
    intro e he
    obtain ⟨d, hd, hneed⟩ := hg.needs_of_input hstage he
    have hmem : d ∈ s.run.graph.predecessorsOf i := by
      rw [ht.graph]
      exact Graph.mem_predecessorsOf.2 hneed
    obtain ⟨o, ho, hs⟩ := Run.dependencies?_isSome.1 hknown d hmem
    exact h.read_eq ht hl hg hd ho hs stage.name
  have hall := readAll_eq hreads
  simp only [prepare, Givens.ready, ← hall, Run.resolveInputs, OutputStore.resolveInputs]
  cases s.run.outputs.resolveEntries stage.name s.run.statusOf? stage.inputs.entries with
  | error e => rfl
  | ok inputs =>
    have hprovider : (u.givens results).provider = u.provider := rfl
    simp only [Except.map, hprovider]
    cases Lease.acquire u.provider stage.name stage.secrets <;> rfl

theorem ended_of_life (h : Agrees u results s) (hu : u.Accepted) (hp : u.Patient)
    (ht : Titled u s) (hl : Ledger u s) (ha : Admitted u s) (ho : s.run.outcome? i = some o)
    (hstage : u.stage? i = some stage)
    (hlife : Life u (fixedEnvironment results) s i stage o o')
    (hs : o'.status.isTerminal = true) :
    o'.verdict = (u.givens results).judge (u.givens results).sequential i stage := by
  have hblank : o.Blank := hl.blank i o ho hlife.open_
  have htrigger : (u.givens results).trigger = u.trigger := rfl
  have hresults : (u.givens results).results i = results i := rfl
  -- the gate has let in what was queued
  have hallowed : o.status = .queued ∨ o.status = .running →
      (s.run.dependencies? i).isSome = true ∧ Gate.decide u.trigger stage
        ((u.givens results).dependencies (u.givens results).sequential i) = .ok .allow := by
    intro hs
    obtain ⟨stage', deps, hstage', hdeps, hgate⟩ := ha i o ho hs
    rw [hstage] at hstage'
    cases hstage'
    refine ⟨by rw [hdeps]; rfl, ?_⟩
    rw [h.dependencies_eq ht hu.describes hdeps]
    exact hgate
  cases hlife with
  | enqueue | launch => cases hs
  | unready hq hprep =>
    obtain ⟨hknown, hgate⟩ := hallowed (.inl hq)
    have hready := h.ready_eq ht hl hu.describes hstage hknown
    rw [hprep] at hready
    rw [verdict_fail hblank]
    simp only [Givens.judge, htrigger, hgate, ← hready]
    rfl
  | finish hr hc hi hans =>
    obtain ⟨_, hgate⟩ := hallowed (.inr hr)
    have hready := h.ready i o stage ho hr hstage
    rw [verdict_close hblank, hans, hi]
    simp only [Givens.judge, htrigger, hgate, hready, hresults]
  | ends hend =>
    cases hend with
    | refuse _ hdeps hgate =>
      rw [← h.dependencies_eq ht hu.describes hdeps] at hgate
      rw [verdict_skip hblank]
      simp only [Givens.judge, htrigger, hgate]
    | misgate _ hdeps hgate =>
      rw [← h.dependencies_eq ht hu.describes hdeps] at hgate
      rw [verdict_fail hblank]
      simp only [Givens.judge, htrigger, hgate]
    | fall _ hcause hfall => exact absurd hfall (hp.not_falls hcause)
    | withdraw _ hc =>
      rw [h.calm] at hc
      cases hc

theorem move (h : Agrees u results s) (hu : u.Accepted) (hp : u.Patient) (ht : Titled u s)
    (hl : Ledger u s) (ha : Admitted u s) (hm : Move u (fixedEnvironment results) s s') :
    Agrees u results s' := by
  constructor
  · intro i o' ho' hs'
    rcases hm.outcome? ho' with ho | ⟨stage, o, ho, hstage, hlife⟩
    · exact h.ended i o' ho hs'
    · rw [h.ended_of_life hu hp ht hl ha ho hstage hlife hs']
      exact Givens.lookup_sequential hu.describes hu.ordered hstage
  · intro i o' stage ho' hs' hstage
    rcases hm.outcome? ho' with ho | ⟨stage', o, ho, hstage', hlife⟩
    · exact h.ready i o' stage ho hs' hstage
    · rw [hstage] at hstage'
      cases hstage'
      cases hlife with
      | enqueue | unready => cases hs'
      | @launch request hq hprep =>
        obtain ⟨_, deps, _, hdeps, _⟩ := ha i o ho (.inl hq)
        rw [← h.ready_eq ht hl hu.describes hstage (by rw [hdeps]; rfl), hprep]
        rfl
      | @finish c result =>
        have hend := Outcome.close_isTerminal o stage result s.run.clock
        rw [hs'] at hend
        cases hend
      | ends hend =>
        have hend := hend.isTerminal
        rw [hs'] at hend
        cases hend
  · cases hm with
    | ask henv => exact henv.elim
    | _ => exact h.calm

end Agrees

theorem agrees_start (u : Setup) (results : Nat → Except Error CommandOutput) :
    Agrees u results (State.start u) := by
  refine ⟨?_, ?_, rfl⟩
  · intro i o ho hs
    obtain ⟨_, _, rfl⟩ := outcome_of_start ho
    cases hs
  · intro i o stage ho hs _
    obtain ⟨_, _, rfl⟩ := outcome_of_start ho
    cases hs

theorem Reachable.agrees (hu : u.Accepted) (hp : u.Patient)
    (h : Reachable u (fixedEnvironment results) x) : Agrees u results x.state := by
  have h := h.induct (fun s => Titled u s ∧ Ledger u s ∧ Admitted u s ∧ Agrees u results s)
    ⟨titled_start u, ledger_start u, admitted_start u, agrees_start u results⟩
    fun _ _ ⟨ht, hl, ha, h⟩ hm =>
      ⟨ht.move hm, hl.move ht hu.describes hm, ha.move hm, h.move hu hp ht hl ha hm⟩
  exact h.2.2.2

/-! ## Confluence -/

/-- What a run returns holds the verdicts of the sequential evaluation. -/
theorem Reachable.returns_sequential (hu : u.Accepted) (hp : u.Patient)
    (hw : ∀ i e, results i = .error e → e.isFatal = false)
    (hx : Reachable u (fixedEnvironment results) x) {result : Except Error Run}
    (hr : Returns u (fixedEnvironment results) x result) :
    ∃ run, result = .ok run ∧ ∀ i, (run.outcome? i).map Outcome.verdict =
      (u.givens results).sequential.lookup i := by
  have hharmless : (fixedEnvironment results).Harmless := fun c e hans => hw c.stage e hans.symm
  obtain ⟨hresult, hcomplete, _⟩ := hx.returns_ok hu hharmless hr
  have ht := hx.titled
  refine ⟨x.state.run, hresult, fun i => ?_⟩
  cases hstage : u.stage? i with
  | none =>
    rw [Givens.lookup_sequential_eq_none hu.describes hu.ordered hstage]
    cases ho : x.state.run.outcome? i with
    | none => rfl
    | some o =>
      obtain ⟨stage, hsome, _⟩ := ht.named i o ho
      rw [hstage] at hsome
      cases hsome
  | some stage =>
    obtain ⟨o, ho⟩ := ht.present i stage hstage
    have hs : o.status.isTerminal = true :=
      List.all_eq_true.1 hcomplete o (List.mem_of_getElem? ho)
    rw [ho, Option.map_some, (hx.agrees hu hp).ended i o ho hs]

/-- Without fail-fast and cancel the outcomes of a run are those of the sequential evaluation, in
whatever order its commands are done and with however many workers. So they are the same for
every schedule. -/
theorem outcomes_sequential (hu : u.Accepted) (hp : u.Patient)
    (hw : ∀ i e, results i = .error e → e.isFatal = false)
    (hx : Reachable u (fixedEnvironment results) x) {result : Except Error Run}
    (hr : Returns u (fixedEnvironment results) x result) :
    ∃ run, result = .ok run ∧
      (∀ i, (run.outcome? i).map Outcome.verdict = (u.givens results).sequential.lookup i) ∧
      ∀ v : Setup, v.Accepted → v.givens results = u.givens results →
        ∀ y result', Reachable v (fixedEnvironment results) y →
          Returns v (fixedEnvironment results) y result' →
            ∃ run', result' = .ok run' ∧ ∀ i,
              (run'.outcome? i).map Outcome.verdict = (run.outcome? i).map Outcome.verdict := by
  obtain ⟨run, hresult, hrun⟩ := hx.returns_sequential hu hp hw hr
  refine ⟨run, hresult, hrun, ?_⟩
  intro v hv hsame y result' hy hr'
  have hpipeline : v.pipeline = u.pipeline := congrArg Givens.pipeline hsame
  have hpatient : v.Patient := by
    refine ⟨?_, ?_⟩
    · rw [hpipeline]; exact hp.alone
    · rw [hpipeline]; exact hp.ungrouped
  obtain ⟨run', hresult', hrun'⟩ := hy.returns_sequential hv hpatient hw hr'
  exact ⟨run', hresult', fun i => by rw [hrun', hrun, hsame]⟩

/-- A stage that publishes, one that fails, and one that runs after both and reads what the first
has published. -/
def relaySetup : Setup where
  pipeline :=
    { name := "p"
      stages :=
        [ { name := "build", run := .script "make", outputs := ["version"] },
          { name := "lint", run := .script "lint" },
          { name := "publish", run := .script "push", dependsOn := ["lint"],
            onFailure := .proceed, inputs := Dict.ofList [("VERSION", ⟨"build", "version"⟩)] } ] }
  graph :=
    { names := ["build", "lint", "publish"]
      places := .ofList [("build", 0), ("lint", 1), ("publish", 2)]
      edges := [(1, 2), (0, 2)]
      predecessors := [[], [], [0, 1]]
      successors := [[2], [2], []] }
  trigger := default
  provider := fun _ => none
  maxParallel := some 2
  hostWorkers := 4
  runId := "r"

def relayResults : Nat → Except Error CommandOutput
  | 0 => .ok { exitCode := some 0, outputs := Dict.ofList [("version", "1")] }
  | 1 => .ok { exitCode := some 2 }
  | _ => .ok { exitCode := some 0 }

/-- The second stage is done first. -/
theorem outcomes_sequential_relay : ∃ x run,
    Reachable relaySetup (fixedEnvironment relayResults) x ∧
      Returns relaySetup (fixedEnvironment relayResults) x (.ok run) ∧
      run.status? 1 = some .failed ∧ run.status? 2 = some .succeeded ∧
      ∀ i, (run.outcome? i).map Outcome.verdict =
        (relaySetup.givens relayResults).sequential.lookup i := by
  let next (s : State) (i now : Nat) : State :=
    left (settle relaySetup (left (complete relaySetup (s.wakeAt now) i (relayResults i))))
  let s₁ := left (settle relaySetup (State.start relaySetup))
  let s₂ := next s₁ 1 1
  let s₃ := next s₂ 0 2
  let s := next s₃ 2 3
  have hu : relaySetup.Accepted := ⟨rfl⟩
  have hp : relaySetup.Patient := by
    refine ⟨rfl, ?_⟩
    decide +kernel
  have hw : ∀ i e, relayResults i = .error e → e.isFatal = false := by
    intro i e h
    unfold relayResults at h
    split at h <;> cases h
  have hnext : ∀ s i now, Reachable relaySetup (fixedEnvironment relayResults) ⟨.waiting, s⟩ →
      (∃ c ∈ s.inFlight, c.stage = i) → s.run.clock ≤ now →
      (complete relaySetup (s.wakeAt now) i (relayResults i)).toBool = true →
      (settle relaySetup (left (complete relaySetup (s.wakeAt now) i (relayResults i)))).toBool =
        true → Reachable relaySetup (fixedEnvironment relayResults) ⟨.waiting, next s i now⟩ := by
    intro s i now h hc hnow hcomplete hsettle
    obtain ⟨c, hc, hi⟩ := hc
    exact (h.joined ⟨c, hc, hi, congrArg relayResults hi.symm⟩ hnow
      (eq_ok_left hcomplete)).settled (eq_ok_left hsettle)
  have h₁ : Reachable relaySetup (fixedEnvironment relayResults) ⟨.waiting, s₁⟩ :=
    Reachable.settled .refl (eq_ok_left (by decide +kernel))
  have h₂ : Reachable relaySetup (fixedEnvironment relayResults) ⟨.waiting, s₂⟩ :=
    hnext s₁ 1 1 h₁ (by decide +kernel) (by decide +kernel) (by decide +kernel)
      (by decide +kernel)
  have h₃ : Reachable relaySetup (fixedEnvironment relayResults) ⟨.waiting, s₃⟩ :=
    hnext s₂ 0 2 h₂ (by decide +kernel) (by decide +kernel) (by decide +kernel)
      (by decide +kernel)
  have h₄ : Reachable relaySetup (fixedEnvironment relayResults) ⟨.waiting, s⟩ :=
    hnext s₃ 2 3 h₃ (by decide +kernel) (by decide +kernel) (by decide +kernel)
      (by decide +kernel)
  have hidle : s.inFlight = [] := by decide +kernel
  have hcomplete : s.run.isComplete = true := by decide +kernel
  have hfailed : s.run.status? 1 = some .failed := by decide +kernel
  have hsucceeded : s.run.status? 2 = some .succeeded := by decide +kernel
  have hr : Returns relaySetup (fixedEnvironment relayResults) ⟨.waiting, s⟩ (.ok s.run) :=
    .verdict (verdict?_idle hidle hcomplete)
  clear_value s
  obtain ⟨run, hrun, hverdicts, _⟩ := outcomes_sequential hu hp hw h₄ hr
  cases hrun
  exact ⟨_, _, h₄, hr, hfailed, hsucceeded, hverdicts⟩

end Scheduler
end Conveyor
