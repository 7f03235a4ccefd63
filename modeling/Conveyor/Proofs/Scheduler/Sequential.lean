import Conveyor.Proofs.Graph.Order
import Conveyor.Scheduler

/-!
# Conveyor.Proofs.Scheduler.Sequential

What a run comes to, told without a scheduler.

The stages are visited once, in the order of the graph. Each gets the verdict of its gate on the
verdicts of its dependencies; if the gate lets it in, the error of the first input that cannot be
read or the first secret that is missing; if there is none, the result of its command, which is
given. There are no workers here, no locks, no clock and no commands in flight.

* `Verdict`             — what is left of a stage: the part of an outcome that is not about time.
* `Givens`              — all that verdicts depend on.
* `Givens.judge`        — the verdict of one stage, from a table of earlier ones.
* `Givens.Alike`        — two such givens agree in what the verdict of a stage depends on.
* `Givens.sequential`   — the verdicts of all stages.
* `lookup_sequential`   — every one of them is what `judge` says on the whole table.
-/

namespace Conveyor
namespace Scheduler

structure Verdict where
  status : Status
  skipReason : Option SkipReason := none
  error : Option Error := none
  exitCode : Option Int := none
  outputs : Dict String := ∅
  deriving DecidableEq, Repr

namespace Verdict

def failed (error : Error) : Verdict := { status := .failed, error := some error }

def skipped (reason : SkipReason) : Verdict := { status := .skipped, skipReason := some reason }

def ofResult (stage : Stage) : Except Error CommandOutput → Verdict
  | .error e => failed e
  | .ok out =>
    if out.success then
      { status := .succeeded, exitCode := out.exitCode,
        outputs := Marker.declared stage out.outputs }
    else if out.cancelled then { skipped .cancelled with exitCode := out.exitCode }
    else
      { failed (.commandFailure stage.name (out.exitCode.getD (-1)) (Text.tail 20 out.stderr)) with
        exitCode := out.exitCode }

def asDependency (v : Verdict) (optional : Bool) : Option DependencyOutcome :=
  match v.status with
  | .succeeded => some .succeeded
  | .failed => some (.failed optional)
  | .skipped => some .skipped
  | .pending | .queued | .running => none

/-- The value of a reference to an output of the stage. -/
def read (v : Verdict) (consumer : String) (r : OutputRef) : Except Error String :=
  match v.status with
  | .succeeded =>
    match v.outputs.get? r.key with
    | some value => .ok value
    | none => .error (.outputUnavailable consumer r.text "the producer never published it")
  | .failed => .error (.outputUnavailable consumer r.text "the producer failed")
  | .skipped => .error (.outputUnavailable consumer r.text "the producer was skipped")
  | .pending | .queued | .running => .error (.outputNotReady consumer r.text)

end Verdict

/-- The verdicts so far, by the index of the stage. -/
abbrev Table := List (Nat × Verdict)

/-- All that the outcomes of a run depend on. -/
structure Givens where
  pipeline : Pipeline
  graph : Graph
  trigger : Trigger
  provider : SecretProvider
  /-- What the command of each stage comes to, should it be run. -/
  results : Nat → Except Error CommandOutput

namespace Givens

variable (g : Givens)

def dependencies (t : Table) (i : Nat) : Dependencies :=
  (g.graph.predecessorsOf i).filterMap fun d =>
    match g.pipeline.stages[d]?, t.lookup d with
    | some stage, some v => (v.asDependency stage.allowFailure).map (stage.name, ·)
    | _, _ => none

def read (t : Table) (consumer : String) (r : OutputRef) : Except Error String :=
  match (g.graph.index? r.stage).bind fun d => t.lookup d with
  | none => .error (.stageNotFound r.stage)
  | some v => v.read consumer r

/-- Reads inputs up to the first that cannot be. -/
def readAll (t : Table) (consumer : String) : List (String × OutputRef) → Except Error Unit
  | [] => .ok ()
  | (_, r) :: rest =>
    match g.read t consumer r with
    | .error e => .error e
    | .ok _ => readAll t consumer rest

/-- Whether the command of a stage can be run: its inputs first, then its secrets. -/
def ready (t : Table) (stage : Stage) : Except Error Unit :=
  match g.readAll t stage.name stage.inputs.entries with
  | .error e => .error e
  | .ok _ => (Lease.acquire g.provider stage.name stage.secrets).map fun _ => ()

def judge (t : Table) (i : Nat) (stage : Stage) : Verdict :=
  match Gate.decide g.trigger stage (g.dependencies t i) with
  | .error e => .failed e
  | .ok (.skip reason) => .skipped reason
  | .ok .allow =>
    match g.ready t stage with
    | .error e => .failed e
    | .ok _ => .ofResult stage (g.results i)

def visit : List Nat → Table → Table
  | [], t => t
  | i :: rest, t =>
    match g.pipeline.stages[i]? with
    | none => visit rest t
    | some stage => visit rest ((i, g.judge t i stage) :: t)

def sequential : Table := g.visit g.graph.order []

/-! ## What a verdict depends on -/

variable {g g' : Givens} {t t' : Table} {i : Nat} {stage : Stage}

/-- The two agree in all that the verdict on a stage depends on, apart from earlier verdicts. -/
structure Alike (g g' : Givens) (i : Nat) : Prop where
  trigger : g.trigger = g'.trigger
  provider : g.provider = g'.provider
  result : g.results i = g'.results i
  index? : ∀ n, g.graph.index? n = g'.graph.index? n
  predecessors : g.graph.predecessorsOf i = g'.graph.predecessorsOf i
  stages : ∀ d ∈ g.graph.predecessorsOf i, g.pipeline.stages[d]? = g'.pipeline.stages[d]?

theorem Alike.refl (g : Givens) (i : Nat) : Alike g g i :=
  ⟨rfl, rfl, rfl, fun _ => rfl, rfl, fun _ _ => rfl⟩

theorem dependencies_congr (ha : Alike g g' i)
    (h : ∀ d ∈ g.graph.predecessorsOf i, t.lookup d = t'.lookup d) :
    g.dependencies t i = g'.dependencies t' i := by
  rw [dependencies, dependencies, ← ha.predecessors]
  apply List.filterMap_congr
  intro d hd
  rw [h d hd, ha.stages d hd]

theorem readAll_congr {consumer : String} : ∀ {l : List (String × OutputRef)},
    (∀ e ∈ l, g.read t consumer e.2 = g'.read t' consumer e.2) →
      g.readAll t consumer l = g'.readAll t' consumer l := by
  intro l
  induction l with
  | nil => intro _; rfl
  | cons e rest ih =>
    intro h
    simp only [readAll, h e List.mem_cons_self]
    rw [ih fun e he => h e (List.mem_cons_of_mem _ he)]

/-- Of earlier verdicts, a verdict depends on those of the direct dependencies only: producers of
inputs are among them. -/
theorem judge_congr (ha : Alike g g' i) (hg : g.graph.Describes g.pipeline.stages)
    (hstage : g.pipeline.stages[i]? = some stage)
    (h : ∀ d ∈ g.graph.predecessorsOf i, t.lookup d = t'.lookup d) :
    g.judge t i stage = g'.judge t' i stage := by
  have hread : ∀ e ∈ stage.inputs.entries,
      g.read t stage.name e.2 = g'.read t' stage.name e.2 := by
    intro e he
    obtain ⟨d, hd, hneed⟩ := hg.needs_of_input hstage he
    have hlookup := h d (Graph.mem_predecessorsOf.2 hneed)
    simp only [read, ← ha.index?, hd, Option.bind_some, hlookup]
  simp only [judge, ready, dependencies_congr ha h, readAll_congr hread, ha.trigger, ha.provider,
    ha.result]

/-! ## The table is its own judgement -/

theorem lookup_visit_of_not_mem : ∀ {l : List Nat} {t : Table}, i ∉ l →
    (g.visit l t).lookup i = t.lookup i := by
  intro l
  induction l with
  | nil => intro t _; rfl
  | cons j rest ih =>
    intro t hi
    obtain ⟨hij, hrest⟩ := not_or.1 (List.mem_cons.not.1 hi)
    rw [visit]
    split
    · exact ih hrest
    · rw [ih hrest, List.lookup_cons]
      have : (i == j) = false := by simpa using hij
      rw [this]

/-- Visited after its dependencies, a stage gets the verdict that the whole table would give. -/
theorem lookup_visit (hg : g.graph.Describes g.pipeline.stages) :
    ∀ {l placed : List Nat} {t : Table}, g.graph.DependenciesFirst placed l → l.Nodup →
      (∀ d ∈ placed, d ∉ l) → i ∈ l → g.pipeline.stages[i]? = some stage →
        (g.visit l t).lookup i = some (g.judge (g.visit l t) i stage) := by
  intro l
  induction l with
  | nil => intro placed t _ _ _ hi; cases hi
  | cons j rest ih =>
    intro placed t hfirst hn hplaced hi hstage
    obtain ⟨hdeps, hfirst⟩ := hfirst
    obtain ⟨hjrest, hn⟩ := List.nodup_cons.1 hn
    by_cases hij : i = j
    · subst hij
      have hvisit : g.visit (i :: rest) t = g.visit rest ((i, g.judge t i stage) :: t) := by
        simp only [visit, hstage]
      -- the dependencies were placed before, and no visit comes back to them
      have hsame : ∀ d ∈ g.graph.predecessorsOf i,
          t.lookup d = (g.visit (i :: rest) t).lookup d := fun d hd =>
        (lookup_visit_of_not_mem (hplaced d (hdeps d hd))).symm
      rw [← judge_congr (.refl g i) hg hstage hsame, hvisit, lookup_visit_of_not_mem hjrest,
        List.lookup_cons_self]
    · have hi : i ∈ rest := (List.mem_cons.1 hi).resolve_left hij
      have hplaced : ∀ d ∈ j :: placed, d ∉ rest := by
        intro d hd hrest
        rcases List.mem_cons.1 hd with rfl | hd
        · exact hjrest hrest
        · exact hplaced d hd (List.mem_cons_of_mem j hrest)
      rw [visit]
      split
      · exact ih hfirst hn hplaced hi hstage
      · exact ih hfirst hn hplaced hi hstage

theorem lookup_sequential (hg : g.graph.Describes g.pipeline.stages) (ho : g.graph.Ordered)
    (hstage : g.pipeline.stages[i]? = some stage) :
    g.sequential.lookup i = some (g.judge g.sequential i stage) := by
  have hi : i ∈ g.graph.order := by
    rw [ho.mem_iff, hg.size_eq]
    exact (List.getElem?_eq_some_iff.1 hstage).1
  exact lookup_visit hg ho.first ho.nodup nofun hi hstage

theorem lookup_sequential_eq_none (hg : g.graph.Describes g.pipeline.stages)
    (ho : g.graph.Ordered) (hi : g.pipeline.stages[i]? = none) :
    g.sequential.lookup i = none := by
  refine lookup_visit_of_not_mem ?_
  rw [ho.mem_iff, hg.size_eq]
  exact Nat.not_lt_of_le (List.getElem?_eq_none_iff.1 hi)

end Givens
end Scheduler
end Conveyor
