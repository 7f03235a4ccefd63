import Conveyor.Proofs.Pipeline.Validity
import Conveyor.Proofs.Scheduler.Propagation

/-!
# Conveyor.Proofs.Scheduler.Plan

A plan tells how a run without mishap ends.

The plan asks every gate about dependencies that are all taken to succeed. A run asks it about
those that the stage really has. For a stage behind which the plan lets in everything the two
questions are the same: by then all its dependencies have succeeded, each of them for the same
reason. Such a stage is also prepared without an error, because the producers of its inputs have
succeeded and a valid definition has it read only keys that they declare.

* `foresee`         — what the gate of a stage says in the plan.
* `Outcome.Follows` — an outcome carries out what a gate has said.
* `plan_ok`         — there is a plan, and in it every gate has its say.
* `Flawless`        — nothing goes wrong in a run that its gates could not know.
* `Foreseen`        — the invariant: what has ended has ended as foreseen.
* `plan_foretells`  — every run without mishap ends as its plan says.
-/

namespace Conveyor

/-- The outcome carries out the decision; a stage that was let in has come this far. -/
def Outcome.Follows (o : Outcome) (done : Status) : Except Error Decision → Prop
  | .ok .allow => o.status = done
  | .ok (.skip reason) => o.status = .skipped ∧ o.skipReason = some reason
  | .error e => o.status = .failed ∧ o.error = some e

namespace Scheduler

variable {u : Setup} {env : Environment} {s s' : State} {i d : Nat} {stage : Stage}
  {o o' : Outcome} {x : Point} {planned r : Run}

/-! ## Plans -/

/-- What the gate of a stage says when its dependencies are taken to succeed. -/
def foresee (u : Setup) (i : Nat) (stage : Stage) : Except Error Decision :=
  Gate.decide u.trigger stage ((u.graph.predecessorsOf i).map fun d =>
    (u.graph.name d, DependencyOutcome.succeeded))

theorem planOne_ok (hstage : u.stage? i = some stage) (ho : r.outcome? i = some o)
    (hs : o.status = .pending) (hblank : o.Blank) :
    ∃ o', planOne u r i = .ok (r.setOutcome i o') ∧ o'.Follows .queued (foresee u i stage) := by
  have hopen : o.status.isTerminal = false := by rw [hs]; rfl
  simp only [planOne, hstage, foresee]
  split
  · rename_i hgate
    exact ⟨o.enqueue, Run.accepted_markQueued ho hs, by rw [hgate]; rfl⟩
  · rename_i reason hgate
    exact ⟨_, Run.accepted_markSkipped ho hopen reason, by rw [hgate]; exact ⟨rfl, rfl⟩⟩
  · rename_i e hgate
    refine ⟨_, Run.accepted_markFailed ho hopen e, ?_⟩
    rw [hgate]
    refine ⟨rfl, ?_⟩
    simp only [Outcome.fail, hblank.error]
    rfl

/-- The stage is one of the pipeline, and nothing was recorded about it yet. -/
def Untouched (u : Setup) (r : Run) (i : Nat) : Prop :=
  ∃ stage o, u.stage? i = some stage ∧ r.outcome? i = some o ∧ o.status = .pending ∧ o.Blank

/-- The stage is planned as its gate says. -/
def Planned (u : Setup) (planned : Run) (i : Nat) : Prop :=
  ∃ stage o, u.stage? i = some stage ∧ planned.outcome? i = some o ∧
    o.Follows .queued (foresee u i stage)

theorem planFrom_ok : ∀ {l : List Nat} {r : Run}, l.Nodup → (∀ i ∈ l, Untouched u r i) →
    ∃ planned, planFrom u l r = .ok planned ∧
      (∀ i, i ∉ l → planned.outcome? i = r.outcome? i) ∧ ∀ i ∈ l, Planned u planned i := by
  intro l
  induction l with
  | nil =>
    intro r _ _
    exact ⟨r, rfl, fun _ _ => rfl, nofun⟩
  | cons i rest ih =>
    intro r hnodup huntouched
    obtain ⟨hi, hnodup⟩ := List.nodup_cons.1 hnodup
    obtain ⟨hfirst, huntouched⟩ := List.forall_mem_cons.1 huntouched
    obtain ⟨stage, o, hstage, ho, hs, hblank⟩ := hfirst
    obtain ⟨o', hone, hfollows⟩ := planOne_ok hstage ho hs hblank
    have hset := Run.outcome?_setOutcome ho o'
    have huntouched' : ∀ j ∈ rest, Untouched u (r.setOutcome i o') j := by
      intro j hj
      obtain ⟨stage, o, hstage, ho, hrest⟩ := huntouched j hj
      have hji : j ≠ i := by
        rintro rfl
        exact hi hj
      exact ⟨stage, o, hstage, by rw [hset, if_neg hji, ho], hrest⟩
    obtain ⟨planned, hplan, hsame, hplanned⟩ := ih hnodup huntouched'
    refine ⟨planned, by simp only [planFrom, hone, hplan], ?_, ?_⟩
    · intro j hj
      obtain ⟨hji, hjrest⟩ := not_or.1 (List.mem_cons.not.1 hj)
      rw [hsame j hjrest, hset, if_neg hji]
    · refine List.forall_mem_cons.2 ⟨⟨stage, o', hstage, ?_, hfollows⟩, hplanned⟩
      rw [hsame i hi, hset, if_pos rfl]

/-- In the plan the gate of every stage has its say. -/
def Plans (u : Setup) (planned : Run) : Prop :=
  ∀ i stage, u.stage? i = some stage →
    ∃ a, planned.outcome? i = some a ∧ a.Follows .queued (foresee u i stage)

theorem plan_ok (hu : u.Accepted) :
    ∃ planned, plan u (Run.start u.pipeline u.graph u.trigger true) = .ok planned ∧
      Plans u planned := by
  have huntouched : ∀ i ∈ u.order,
      Untouched u (Run.start u.pipeline u.graph u.trigger true) i := by
    intro i hi
    obtain ⟨stage, hstage⟩ := hu.describes.exists_stage ((hu.ordered.mem_iff i).1 hi)
    refine ⟨stage, { name := stage.name, optional := stage.allowFailure }, hstage, ?_, rfl,
      rfl, rfl, rfl, rfl⟩
    simp only [Run.start, Run.outcome?, List.getElem?_map, hstage, Option.map_some]
  obtain ⟨planned, hplan, _, hplanned⟩ := planFrom_ok hu.ordered.nodup huntouched
  refine ⟨planned, hplan, fun i stage hstage => ?_⟩
  obtain ⟨stage', a, hstage', ha, hfollows⟩ := hplanned i (hu.mem_order hstage)
  rw [hstage] at hstage'
  cases hstage'
  exact ⟨a, ha, hfollows⟩

theorem Plans.queued_iff (h : Plans u planned) (hstage : u.stage? i = some stage) :
    planned.status? i = some .queued ↔ foresee u i stage = .ok .allow := by
  obtain ⟨a, ha, hfollows⟩ := h i stage hstage
  rw [Run.status?, ha, Option.map_some, Option.some.injEq]
  constructor
  · intro hs
    cases hgate : foresee u i stage with
    | error e =>
      rw [hgate] at hfollows
      rw [hfollows.1] at hs
      cases hs
    | ok decision =>
      cases decision with
      | allow => rfl
      | skip reason =>
        rw [hgate] at hfollows
        rw [hfollows.1] at hs
        cases hs
  · intro hgate
    rw [hgate] at hfollows
    exact hfollows

/-! ## Runs without mishap -/

/-- The plan lets in all that the stage needs, directly or through others. -/
def Clear (u : Setup) (planned : Run) (i : Nat) : Prop :=
  ∀ d, Relation.TransGen u.graph.Needs i d → planned.status? d = some .queued

/-- The run is not cancelled, every command succeeds and prints what its stage declares, and no
secret is missing that a stage asks for which the plan lets in, behind others that it lets in. An
environment need not answer a command that a run does not start, so nothing is asked of those. -/
structure Flawless (u : Setup) (planned : Run) (env : Environment) : Prop where
  calm : ¬ env.cancels
  succeeds : ∀ c result, env.answers c result → ∃ out, result = .ok out ∧
    out.exitCode = some 0 ∧ out.cancelled = false ∧
    ∀ stage, u.stage? c.stage = some stage →
      ∀ key ∈ stage.outputs, (out.outputs.get? key).isSome = true
  secrets : ∀ i stage, u.stage? i = some stage → Clear u planned i →
    planned.status? i = some .queued →
      ∀ name ∈ stage.secrets, (u.provider name).isSome = true

theorem Clear.dependency (h : Clear u planned i) (hneed : u.graph.Needs i d) :
    Clear u planned d :=
  fun _ hpath => h _ (.head hneed hpath)

/-- What has ended has ended as foreseen, behind stages that the plan lets in. -/
structure Foreseen (u : Setup) (planned : Run) (s : State) : Prop where
  calm : s.run.cancelled = false
  /-- A stage that has succeeded has published all that it declares. -/
  full : ∀ i stage o, u.stage? i = some stage → s.run.outcome? i = some o →
    o.status = .succeeded → ∀ key ∈ stage.outputs, (o.outputs.get? key).isSome = true
  ended : ∀ i stage o, u.stage? i = some stage → Clear u planned i →
    s.run.outcome? i = some o → o.status.isTerminal = true →
      o.Follows .succeeded (foresee u i stage)

theorem foreseen_start (u : Setup) (planned : Run) : Foreseen u planned (State.start u) := by
  refine ⟨rfl, ?_, ?_⟩
  · intro i stage o _ ho hs
    obtain ⟨_, _, rfl⟩ := outcome_of_start ho
    cases hs
  · intro i stage o _ _ ho hs
    obtain ⟨_, _, rfl⟩ := outcome_of_start ho
    cases hs

namespace Foreseen

theorem dependency_succeeded (h : Foreseen u planned s) (hplans : Plans u planned)
    (hg : u.graph.Describes u.pipeline.stages) (ht : Titled u s) (hclear : Clear u planned i)
    (hknown : (s.run.dependencies? i).isSome = true) (hneed : u.graph.Needs i d) :
    ∃ o, s.run.outcome? d = some o ∧ o.status = .succeeded := by
  obtain ⟨stage, hstage⟩ := hg.exists_stage (hg.lt_of_needed hneed)
  have hd : d ∈ s.run.graph.predecessorsOf i := by
    rw [ht.graph]
    exact Graph.mem_predecessorsOf.2 hneed
  obtain ⟨o, ho, hs⟩ := Run.dependencies?_isSome.1 hknown d hd
  have hfollows := h.ended d stage o hstage (hclear.dependency hneed) ho hs
  rw [(hplans.queued_iff hstage).1 (hclear d (.single hneed))] at hfollows
  exact ⟨o, ho, hfollows⟩

/-- The gate is asked what the plan has asked it. -/
theorem gate_eq (h : Foreseen u planned s) (hplans : Plans u planned)
    (hg : u.graph.Describes u.pipeline.stages) (ht : Titled u s) (hclear : Clear u planned i)
    {deps : Dependencies} (hdeps : s.run.dependencies? i = some deps) (stage : Stage) :
    Gate.decide u.trigger stage deps = foresee u i stage := by
  have hknown : (s.run.dependencies? i).isSome = true := by rw [hdeps]; rfl
  have hall : deps = (u.graph.predecessorsOf i).map fun d =>
      (u.graph.name d, DependencyOutcome.succeeded) := by
    rw [Run.dependencies?, ht.graph] at hdeps
    rw [Run.dependencyOutcomes?_eq hdeps, ht.graph, ← List.filterMap_eq_map]
    apply List.filterMap_congr
    intro d hd
    obtain ⟨o, ho, hs⟩ := h.dependency_succeeded hplans hg ht hclear hknown
      (Graph.mem_predecessorsOf.1 hd)
    have hdep : o.asDependency = some .succeeded := by rw [Outcome.asDependency, hs]
    rw [ho, Option.bind_some, hdep]
    rfl
  rw [hall, foresee]

theorem value_isSome (h : Foreseen u planned s) (hplans : Plans u planned) (hu : u.Accepted)
    (ht : Titled u s) (hl : Ledger u s) (hstage : u.stage? i = some stage)
    (hclear : Clear u planned i) (hknown : (s.run.dependencies? i).isSome = true) {var : String}
    {r : OutputRef} (hr : stage.inputs.get? var = some r) :
    s.run.statusOf? r.stage = some .succeeded ∧ (s.run.outputs.value? r).isSome = true := by
  have hentry := Dict.mem_entries.2 hr
  obtain ⟨p, hp, hneed⟩ := hu.describes.needs_of_input hstage hentry
  obtain ⟨o, ho, hs⟩ := h.dependency_succeeded hplans hu.describes ht hclear hknown hneed
  obtain ⟨producer, hproducer, hname⟩ := hu.describes.index?_eq_some_iff.1 hp
  -- the stage that validity finds by its name is the one that the graph has found
  have hvalid := Pipeline.valid_of_ensureValid hu.valid
  obtain ⟨t, ht', htname, hkey⟩ :=
    (hvalid.each stage (List.mem_of_getElem? hstage)).reads _ hentry
  obtain rfl : t = producer := List.inj_on_of_nodup_map hvalid.distinct ht'
    (List.mem_of_getElem? hproducer) (htname.trans hname.symm)
  constructor
  · rw [← hname, ht.statusOf? hu.describes hproducer, Run.status?, ho, Option.map_some, hs]
  · rw [hl.value?_eq ht hproducer hname ho, if_pos hs]
    exact h.full p t o hproducer ho hs r.key hkey

theorem prepares (h : Foreseen u planned s) (hplans : Plans u planned)
    (hflawless : Flawless u planned env) (hu : u.Accepted) (ht : Titled u s) (hl : Ledger u s)
    (hstage : u.stage? i = some stage) (hclear : Clear u planned i)
    (hknown : (s.run.dependencies? i).isSome = true)
    (hallowed : foresee u i stage = .ok .allow) (e : Error) : prepare u s stage ≠ .error e := by
  intro hprep
  rcases prepare_error hprep with hinputs | hsecrets
  · obtain ⟨var, r, hr, hone⟩ := OutputStore.resolveInputs_error hinputs
    obtain ⟨hstatus, hvalue⟩ := h.value_isSome hplans hu ht hl hstage hclear hknown hr
    obtain ⟨_, hmissing⟩ := OutputStore.resolveInput_error hone hstatus rfl
    rw [hmissing rfl] at hvalue
    cases hvalue
  · obtain ⟨name, hname, hnone, _⟩ := Lease.acquire_error hsecrets
    have hqueued := (hplans.queued_iff hstage).2 hallowed
    have hfound := hflawless.secrets i stage hstage hclear hqueued name hname
    rw [hnone] at hfound
    cases hfound

theorem ended_of_life (h : Foreseen u planned s) (hplans : Plans u planned)
    (hflawless : Flawless u planned env) (hu : u.Accepted) (hp : u.Patient) (ht : Titled u s)
    (hl : Ledger u s) (ha : Admitted u s) (ho : s.run.outcome? i = some o)
    (hstage : u.stage? i = some stage) (hclear : Clear u planned i)
    (hlife : Life u env s i stage o o') (hs : o'.status.isTerminal = true) :
    o'.Follows .succeeded (foresee u i stage) := by
  have hblank : o.Blank := hl.blank i o ho hlife.open_
  -- the gate has let in what was queued, as the plan did
  have hallowed : o.status = .queued ∨ o.status = .running →
      (s.run.dependencies? i).isSome = true ∧ foresee u i stage = .ok .allow := by
    intro hs
    obtain ⟨stage', deps, hstage', hdeps, hgate⟩ := ha i o ho hs
    rw [hstage] at hstage'
    cases hstage'
    rw [h.gate_eq hplans hu.describes ht hclear hdeps] at hgate
    exact ⟨by rw [hdeps]; rfl, hgate⟩
  cases hlife with
  | enqueue | launch => cases hs
  | unready hq hprep =>
    obtain ⟨hknown, hgate⟩ := hallowed (.inl hq)
    exact absurd hprep (h.prepares hplans hflawless hu ht hl hstage hclear hknown hgate _)
  | finish hr _ _ hans =>
    obtain ⟨_, hgate⟩ := hallowed (.inr hr)
    obtain ⟨out, rfl, hexit, hcancelled, _⟩ := hflawless.succeeds _ _ hans
    have hsuccess : out.success = true := by
      rw [CommandOutput.success, hexit, hcancelled]
      rfl
    rw [hgate]
    simp only [Outcome.close, hsuccess, if_true]
    rfl
  | ends hend =>
    cases hend with
    | refuse _ hdeps hgate =>
      rw [← h.gate_eq hplans hu.describes ht hclear hdeps, hgate]
      exact ⟨rfl, rfl⟩
    | misgate _ hdeps hgate =>
      rw [← h.gate_eq hplans hu.describes ht hclear hdeps, hgate]
      refine ⟨rfl, ?_⟩
      simp only [Outcome.fail, hblank.error]
      rfl
    | fall _ hcause hfall => exact absurd hfall (hp.not_falls hcause)
    | withdraw _ hc =>
      rw [h.calm] at hc
      cases hc

theorem move (h : Foreseen u planned s) (hplans : Plans u planned)
    (hflawless : Flawless u planned env) (hu : u.Accepted) (hp : u.Patient) (ht : Titled u s)
    (hl : Ledger u s) (ha : Admitted u s) (hm : Move u env s s') : Foreseen u planned s' := by
  constructor
  · cases hm with
    | ask henv => exact absurd henv hflawless.calm
    | _ => exact h.calm
  · intro i stage o' hstage ho' hs' key hkey
    rcases hm.succeeded ho' hs' with ho | ⟨c, out, stage', rfl, hans, hstage', houtputs⟩
    · exact h.full i stage o' hstage ho hs' key hkey
    · rw [hstage] at hstage'
      cases hstage'
      obtain ⟨out', hsame, _, _, hprinted⟩ := hflawless.succeeds c _ hans
      cases hsame
      obtain ⟨value, hvalue⟩ := Option.isSome_iff_exists.1 (hprinted stage hstage key hkey)
      rw [houtputs, Marker.get?_declared.2 ⟨hvalue, hkey⟩]
      rfl
  · intro i stage o' hstage hclear ho' hs'
    rcases hm.outcome? ho' with ho | ⟨stage', o, ho, hstage', hlife⟩
    · exact h.ended i stage o' hstage hclear ho hs'
    · rw [hstage] at hstage'
      cases hstage'
      exact h.ended_of_life hplans hflawless hu hp ht hl ha ho hstage hclear hlife hs'

end Foreseen

theorem Reachable.foreseen (hx : Reachable u env x) (hu : u.Accepted) (hp : u.Patient)
    (hplans : Plans u planned) (hflawless : Flawless u planned env) :
    Foreseen u planned x.state := by
  have h := hx.induct
    (fun s => Titled u s ∧ Ledger u s ∧ Admitted u s ∧ Foreseen u planned s)
    ⟨titled_start u, ledger_start u, admitted_start u, foreseen_start u planned⟩
    fun _ _ ⟨ht, hl, ha, h⟩ hm => ⟨ht.move hm, hl.move ht hu.describes hm, ha.move hm,
      h.move hplans hflawless hu hp ht hl ha hm⟩
  exact h.2.2.2

/-! ## Foretelling -/

/-- The plan says of the stage what the run comes to. -/
def Foretold (planned run : Run) (i : Nat) : Prop :=
  ∃ a o, planned.outcome? i = some a ∧ run.outcome? i = some o ∧
    (a.status = .queued ↔ o.status = .succeeded) ∧
    (∀ reason, a.status = .skipped ∧ a.skipReason = some reason ↔
      o.status = .skipped ∧ o.skipReason = some reason) ∧
    ∀ e, a.status = .failed ∧ a.error = some e ↔ o.status = .failed ∧ o.error = some e

theorem foretold_of_follows {run : Run} {a : Outcome} {decision : Except Error Decision}
    (ha : planned.outcome? i = some a) (ho : run.outcome? i = some o)
    (hplan : a.Follows .queued decision) (hrun : o.Follows .succeeded decision) :
    Foretold planned run i := by
  refine ⟨a, o, ha, ho, ?_⟩
  cases decision with
  | error e =>
    obtain ⟨has, hae⟩ := hplan
    obtain ⟨hos, hoe⟩ := hrun
    simp [has, hae, hos, hoe]
  | ok decision =>
    cases decision with
    | allow =>
      have has : a.status = .queued := hplan
      have hos : o.status = .succeeded := hrun
      simp [has, hos]
    | skip reason =>
      obtain ⟨has, har⟩ := hplan
      obtain ⟨hos, hor⟩ := hrun
      simp [has, har, hos, hor]

/-- Without fail-fast a plan can be made of every valid definition, and it foretells every run
without mishap, in whatever order its commands are done: behind stages that it lets in, the stages
that it lets in succeed, and the others are skipped or fail for the reason that it gives. -/
theorem plan_foretells (hu : u.Accepted) (hp : u.Patient) :
    ∃ planned, plan u (Run.start u.pipeline u.graph u.trigger true) = .ok planned ∧
      ∀ env x result, Flawless u planned env → Reachable u env x → Returns u env x result →
        ∃ run, result = .ok run ∧
          ∀ i stage, u.stage? i = some stage → Clear u planned i → Foretold planned run i := by
  obtain ⟨planned, hplan, hplans⟩ := plan_ok hu
  refine ⟨planned, hplan, fun env x result hflawless hx hr => ?_⟩
  have hharmless : env.Harmless := by
    intro c e hans
    obtain ⟨_, hok, _⟩ := hflawless.succeeds c _ hans
    cases hok
  obtain ⟨hresult, hcomplete, _⟩ := hx.returns_ok hu hharmless hr
  refine ⟨x.state.run, hresult, fun i stage hstage hclear => ?_⟩
  obtain ⟨a, ha, hfollows⟩ := hplans i stage hstage
  obtain ⟨o, ho⟩ := hx.titled.present i stage hstage
  have hs : o.status.isTerminal = true :=
    List.all_eq_true.1 hcomplete o (List.mem_of_getElem? ho)
  have hended := (hx.foreseen hu hp hplans hflawless).ended i stage o hstage hclear ho hs
  exact foretold_of_follows ha ho hfollows hended

/-- A release that reads what its build has published and needs a secret, a stage for another
event, and one with a branch filter that cannot be read. -/
def releaseSetup : Setup where
  pipeline :=
    { name := "p"
      stages :=
        [ { name := "build", run := .script "make", outputs := ["version"] },
          { name := "release", run := .script "push", secrets := ["TOKEN"],
            inputs := Dict.ofList [("VERSION", ⟨"build", "version"⟩)] },
          { name := "nightly", run := .script "fuzz", dependsOn := ["build"],
            conditions := { events := [.schedule] } },
          { name := "hotfix", run := .script "patch", dependsOn := ["build"],
            conditions := { branches := ["["] } } ] }
  graph :=
    { names := ["build", "release", "nightly", "hotfix"]
      places := .ofList [("build", 0), ("release", 1), ("nightly", 2), ("hotfix", 3)]
      edges := [(0, 1), (0, 2), (0, 3)]
      predecessors := [[], [0], [0], [0]]
      successors := [[1, 2, 3], [], [], []] }
  trigger := { event := .push, ref := "main" }
  provider := fun name => if name = "TOKEN" then some "t" else none
  maxParallel := some 2
  hostWorkers := 4
  runId := "r"

/-- Every command prints the same. -/
def releaseResults : Nat → Except Error CommandOutput :=
  fun _ => .ok { exitCode := some 0, outputs := Dict.ofList [("version", "1")] }

/-- The first two stages are let in, the others are not. -/
theorem plan_foretells_release : ∃ planned x run,
    plan releaseSetup (Run.start releaseSetup.pipeline releaseSetup.graph releaseSetup.trigger
      true) = .ok planned ∧
    Flawless releaseSetup planned (fixedEnvironment releaseResults) ∧
    Reachable releaseSetup (fixedEnvironment releaseResults) x ∧
    Returns releaseSetup (fixedEnvironment releaseResults) x (.ok run) ∧
    [0, 1, 2, 3].map planned.status? =
      [some .queued, some .queued, some .skipped, some .failed] ∧
    ∀ i < 4, Foretold planned run i := by
  have hu : releaseSetup.Accepted := ⟨by decide +kernel⟩
  have hp : releaseSetup.Patient := ⟨rfl, by decide +kernel⟩
  have hstatuses : (plan releaseSetup (Run.start releaseSetup.pipeline releaseSetup.graph
      releaseSetup.trigger true)).toOption.map (fun planned => [0, 1, 2, 3].map planned.status?) =
        some [some .queued, some .queued, some .skipped, some .failed] := by
    decide +kernel
  have hover : (runOf? releaseSetup releaseResults [0, 1]).isSome = true := by decide +kernel
  obtain ⟨planned, hplan, hforetells⟩ := plan_foretells hu hp
  rw [hplan] at hstatuses
  have hplanned := Option.some.inj hstatuses
  have hbuild : planned.status? 0 = some .queued := List.head_eq_of_cons_eq hplanned
  have hneeds : ∀ j < 4, ∀ d ∈ releaseSetup.graph.predecessorsOf j, d = 0 := by decide
  have hclear : ∀ i, Clear releaseSetup planned i := by
    intro i d hpath
    obtain ⟨j, _, hneed⟩ := Relation.TransGen.tail'_iff.1 hpath
    rw [hneeds j (hu.describes.lt_of_needs hneed) d hneed, hbuild]
  have hdeclared : ∀ stage ∈ releaseSetup.pipeline.stages, ∀ key ∈ stage.outputs,
      key = "version" := by
    decide
  have hkept : ∀ stage ∈ releaseSetup.pipeline.stages, ∀ name ∈ stage.secrets,
      (releaseSetup.provider name).isSome = true := by
    decide
  have hflawless : Flawless releaseSetup planned (fixedEnvironment releaseResults) := by
    refine ⟨id, ?_, fun i stage hstage _ _ => hkept stage (List.mem_of_getElem? hstage)⟩
    intro c result hanswer
    refine ⟨_, hanswer, rfl, rfl, fun stage hstage key hkey => ?_⟩
    rw [hdeclared stage (List.mem_of_getElem? hstage) key hkey]
    rfl
  obtain ⟨run, hrun⟩ := Option.isSome_iff_exists.1 hover
  obtain ⟨x, hx, hr⟩ := returns_of_runOf? hrun
  obtain ⟨_, hsame, hall⟩ := hforetells _ _ _ hflawless hx hr
  cases hsame
  refine ⟨planned, x, run, hplan, hflawless, hx, hr, hplanned, fun i hi => ?_⟩
  exact hall i _ (List.getElem?_eq_getElem hi) (hclear i)

end Scheduler
end Conveyor
