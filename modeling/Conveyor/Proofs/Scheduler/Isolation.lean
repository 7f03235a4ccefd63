import Conveyor.Proofs.Scheduler.Confluence
import Mathlib.Data.List.Sort

/-!
# Conveyor.Proofs.Scheduler.Isolation

An edit of one stage, or another result of its command, is seen by its dependents only.

The two runs that are compared can be scheduled in any way, each with its own number of workers,
so they are not compared step by step. Each of them returns the verdicts of a sequential
evaluation, and the two evaluations are compared, from dependencies to dependents: a stage that
the edited one does not reach has the same definition, the same direct dependencies, and by
induction these have the same verdicts.

* `EditOf`               — two setups that differ in one stage.
* `lookup_sequential_eq` — their evaluations agree on the stages that it does not reach.
* `edits_stay_downstream` — so do the runs, whatever groups the stages share.
-/

namespace Conveyor

namespace Graph.Describes

variable {g g' : Graph} {stages stages' : List Stage} {i : Nat} {s : Stage}

theorem index?_eq (h : g.Describes stages) (h' : g'.Describes stages')
    (hnames : g.names = g'.names) (n : String) : g.index? n = g'.index? n := by
  refine Option.ext fun i => ?_
  rw [index?, index?, h.places n i, h'.places n i, hnames]

theorem predecessorsOf_eq (h : g.Describes stages) (h' : g'.Describes stages')
    (hnames : g.names = g'.names) (hs : stages[i]? = some s) (hs' : stages'[i]? = some s) :
    g.predecessorsOf i = g'.predecessorsOf i := by
  have hneeds : ∀ d, g.Needs i d ↔ g'.Needs i d := by
    intro d
    rw [h.needs, h'.needs, hs, hs']
    simp only [h.index?_eq h' hnames]
  exact List.Subset.antisymm_of_pairwise (h.agrees.ascending i).1 (h'.agrees.ascending i).1
    (fun d => (hneeds d).1) fun d => (hneeds d).2

end Graph.Describes

namespace Scheduler

variable {u v : Setup} {i k : Nat} {stage : Stage} {x y : Point}
  {results results' : Nat → Except Error CommandOutput}

/-- The second setup has another definition of one stage, under the same name. It may also have
another number of workers and another name for the run. -/
structure EditOf (k : Nat) (u v : Setup) : Prop where
  pipeline : ∃ old new, u.stage? k = some old ∧ new.name = old.name ∧
    v.pipeline = { u.pipeline with stages := u.pipeline.stages.set k new }
  trigger : v.trigger = u.trigger
  provider : v.provider = u.provider

namespace EditOf

theorem stage?_eq (h : EditOf k u v) (hi : i ≠ k) : v.stage? i = u.stage? i := by
  obtain ⟨_, new, _, _, hpipeline⟩ := h.pipeline
  rw [Setup.stage?, hpipeline]
  exact List.getElem?_set_ne hi.symm

theorem names_eq (h : EditOf k u v) :
    v.pipeline.stages.map (·.name) = u.pipeline.stages.map (·.name) := by
  obtain ⟨old, new, hold, hname, hpipeline⟩ := h.pipeline
  apply List.ext_getElem?
  intro i
  rw [List.getElem?_map, List.getElem?_map]
  by_cases hi : i = k
  · subst hi
    have hlt := (List.getElem?_eq_some_iff.1 hold).1
    have hnew : v.pipeline.stages[i]? = some new := by
      rw [hpipeline]
      exact List.getElem?_set_self hlt
    rw [hnew, show u.pipeline.stages[i]? = some old from hold, Option.map_some, Option.map_some,
      hname]
  · rw [show v.pipeline.stages[i]? = u.pipeline.stages[i]? from h.stage?_eq hi]

variable (h : EditOf k u v) (hu : u.Accepted) (hv : v.Accepted)
include h hu hv

theorem graph_names_eq : u.graph.names = v.graph.names := by
  rw [hu.describes.names, hv.describes.names, h.names_eq]

/-- A stage that was not edited, and does not need the one that was, is judged alike. -/
theorem alike (hstage : u.stage? i = some stage) (hi : i ≠ k) (hneed : ¬ u.graph.Needs i k)
    (hresult : results i = results' i) : (u.givens results).Alike (v.givens results') i where
  trigger := h.trigger.symm
  provider := h.provider.symm
  result := hresult
  index? := hu.describes.index?_eq hv.describes (h.graph_names_eq hu hv)
  predecessors :=
    hu.describes.predecessorsOf_eq hv.describes (h.graph_names_eq hu hv) hstage
      ((h.stage?_eq hi).trans hstage)
  stages d hd := by
    have hdk : d ≠ k := by
      rintro rfl
      exact hneed (Graph.mem_predecessorsOf.1 hd)
    exact (h.stage?_eq hdk).symm

/-- The two evaluations agree on every stage that the edited one does not reach. -/
theorem lookup_sequential_eq (hresults : ∀ i, i ≠ k → results i = results' i)
    (hstage : u.stage? i = some stage) (hi : i ≠ k)
    (hfree : ¬ Relation.TransGen u.graph.Needs i k) :
    (u.givens results).sequential.lookup i = (v.givens results').sequential.lookup i := by
  obtain ⟨rank, hrank⟩ := hu.exists_rank
  induction hn : rank i using Nat.strongRecOn generalizing i stage with
  | _ n ih =>
    have hneed : ¬ u.graph.Needs i k := fun hneed => hfree (.single hneed)
    have hbefore : ∀ d ∈ u.graph.predecessorsOf i,
        (u.givens results).sequential.lookup d = (v.givens results').sequential.lookup d := by
      intro d hd
      have hneeds : u.graph.Needs i d := Graph.mem_predecessorsOf.1 hd
      obtain ⟨dependency, hdependency⟩ :=
        hu.describes.exists_stage (hu.describes.lt_of_needed hneeds)
      have hdk : d ≠ k := by
        rintro rfl
        exact hneed hneeds
      exact ih (rank d) (hn ▸ hrank i d hneeds) hdependency hdk
        (fun hpath => hfree (.head hneeds hpath)) rfl
    rw [Givens.lookup_sequential hu.describes hu.ordered hstage,
      Givens.lookup_sequential hv.describes hv.ordered ((h.stage?_eq hi).trans hstage),
      Givens.judge_congr (h.alike hu hv hstage hi hneed (hresults i hi)) hu.describes hstage
        hbefore]

end EditOf

/-- Two runs without fail-fast and cancel, of pipelines that differ in one stage, with results
that differ for this stage at most: whatever it comes to in each of them, and however each of them
is scheduled, every stage that does not depend on it ends the same. -/
theorem edits_stay_downstream (hu : u.Accepted) (hv : v.Accepted) (hp : u.Patient)
    (hq : v.Patient) (h : EditOf k u v) (hresults : ∀ i, i ≠ k → results i = results' i)
    (hw : ∀ i e, results i = .error e → e.isFatal = false)
    (hw' : ∀ i e, results' i = .error e → e.isFatal = false)
    (hx : Reachable u (fixedEnvironment results) x)
    (hy : Reachable v (fixedEnvironment results') y) {result result' : Except Error Run}
    (hr : Returns u (fixedEnvironment results) x result)
    (hr' : Returns v (fixedEnvironment results') y result') :
    ∃ run run', result = .ok run ∧ result' = .ok run' ∧
      ∀ i stage, u.stage? i = some stage → i ≠ k → ¬ Relation.TransGen u.graph.Needs i k →
        ∃ o o', run.outcome? i = some o ∧ run'.outcome? i = some o' ∧
          o.verdict = o'.verdict := by
  obtain ⟨run, rfl, hrun⟩ := hx.returns_sequential hu hp hw hr
  obtain ⟨run', rfl, hrun'⟩ := hy.returns_sequential hv hq hw' hr'
  refine ⟨run, run', rfl, rfl, fun i stage hstage hi hfree => ?_⟩
  have hlookup := Givens.lookup_sequential (g := u.givens results) hu.describes hu.ordered hstage
  have hsame := h.lookup_sequential_eq hu hv hresults hstage hi hfree
  rw [hlookup] at hsame
  obtain ⟨o, ho, hverdict⟩ := Option.map_eq_some_iff.1 ((hrun i).trans hlookup)
  obtain ⟨o', ho', hverdict'⟩ := Option.map_eq_some_iff.1 ((hrun' i).trans hsame.symm)
  exact ⟨o, o', ho, ho', hverdict.trans hverdict'.symm⟩

/-- Two stages that exclude each other, and one that waits for the first of them. -/
def databaseSetup : Setup where
  pipeline :=
    { name := "p"
      stages :=
        [ { name := "migrate", run := .script "migrate", concurrencyGroup := some "db" },
          { name := "test", run := .script "test", concurrencyGroup := some "db" },
          { name := "deploy", run := .script "deploy", dependsOn := ["migrate"] } ] }
  graph :=
    { names := ["migrate", "test", "deploy"]
      places := .ofList [("migrate", 0), ("test", 1), ("deploy", 2)]
      edges := [(0, 2)]
      predecessors := [[], [], [0]]
      successors := [[2], [], []] }
  trigger := default
  provider := fun _ => none
  maxParallel := some 2
  hostWorkers := 4
  runId := "r"

/-- The first stage with a branch filter that cannot be read. -/
def misfiltered : Stage :=
  { name := "migrate", run := .script "migrate", conditions := { branches := ["["] } }

def misfilteredSetup : Setup := { databaseSetup with
  pipeline := { databaseSetup.pipeline with
    stages := databaseSetup.pipeline.stages.set 0 misfiltered }
  maxParallel := some 1
  hostWorkers := 4
  runId := "s" }

/-- Every command has its result, but for that of the edited stage. -/
def testResults (edited : Int) : Nat → Except Error CommandOutput
  | 0 => .ok { exitCode := some edited }
  | _ => .ok { exitCode := some 0, stdout := "ok" }

/-- In the first run the test waits for the migration, in the second it is alone. -/
theorem edits_stay_downstream_database : ∃ x y run run',
    Reachable databaseSetup (fixedEnvironment (testResults 0)) x ∧
    Returns databaseSetup (fixedEnvironment (testResults 0)) x (.ok run) ∧
    Reachable misfilteredSetup (fixedEnvironment (testResults 1)) y ∧
    Returns misfilteredSetup (fixedEnvironment (testResults 1)) y (.ok run') ∧
    run.status? 0 = some .succeeded ∧ run.status? 2 = some .succeeded ∧
    run'.status? 0 = some .failed ∧ run'.status? 2 = some .skipped ∧
    ∃ o o', run.outcome? 1 = some o ∧ run'.outcome? 1 = some o' ∧ o.verdict = o'.verdict := by
  have hu : databaseSetup.Accepted := ⟨rfl⟩
  have hv : misfilteredSetup.Accepted := ⟨by decide +kernel⟩
  have hp : databaseSetup.Patient := ⟨rfl, by decide +kernel⟩
  have hq : misfilteredSetup.Patient := ⟨rfl, by decide +kernel⟩
  have hedit : EditOf 0 databaseSetup misfilteredSetup :=
    ⟨⟨_, misfiltered, rfl, rfl, rfl⟩, rfl, rfl⟩
  have hresults : ∀ i, i ≠ 0 → testResults 0 i = testResults 1 i := by
    rintro (_ | i) hi
    · exact absurd rfl hi
    · rfl
  have hw : ∀ exit i e, testResults exit i = .error e → e.isFatal = false := by
    intro exit i e h
    unfold testResults at h
    split at h <;> cases h
  have hfree : ¬ Relation.TransGen databaseSetup.graph.Needs 1 0 := by
    intro h
    obtain ⟨d, hd, _⟩ := Relation.TransGen.head'_iff.1 h
    cases hd
  have hreplay : (runOf? databaseSetup (testResults 0) [0, 2, 1]).map
      (fun run => [0, 2].map run.status?) = some [some .succeeded, some .succeeded] := by
    decide +kernel
  have hreplay' : (runOf? misfilteredSetup (testResults 1) [1]).map
      (fun run => [0, 2].map run.status?) = some [some .failed, some .skipped] := by
    decide +kernel
  obtain ⟨run, hrun, hstatuses⟩ := Option.map_eq_some_iff.1 hreplay
  obtain ⟨run', hrun', hstatuses'⟩ := Option.map_eq_some_iff.1 hreplay'
  obtain ⟨hfirst, hthird⟩ := List.cons_eq_cons.1 hstatuses
  obtain ⟨hfirst', hthird'⟩ := List.cons_eq_cons.1 hstatuses'
  obtain ⟨x, hx, hr⟩ := returns_of_runOf? hrun
  obtain ⟨y, hy, hr'⟩ := returns_of_runOf? hrun'
  obtain ⟨_, _, hsame, hsame', hverdicts⟩ := edits_stay_downstream hu hv hp hq hedit hresults
    (hw 0) (hw 1) hx hy hr hr'
  cases hsame
  cases hsame'
  exact ⟨x, y, run, run', hx, hr, hy, hr', hfirst, List.head_eq_of_cons_eq hthird, hfirst',
    List.head_eq_of_cons_eq hthird', hverdicts 1 _ rfl (by decide) hfree⟩

end Scheduler
end Conveyor
