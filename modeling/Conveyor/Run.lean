import Conveyor.Blake3
import Conveyor.Gate
import Conveyor.Graph.Basic
import Conveyor.Json.Printer
import Conveyor.Output.Store
import Conveyor.Pipeline.Schema
import Conveyor.Status

/-!
# Conveyor.Run

The state of one run of a pipeline.

* `Outcome`         — everything recorded about one stage.
* `Run`             — one outcome per stage in declaration order, and the published outputs.
* `Run.transition`  — the only way a status changes; a step that is not allowed is refused.
* `Run.markQueued`, `Run.markRunning`, `Run.markSkipped`, `Run.markFailed`, `Run.markSucceeded`
                    — the steps with what they record.
* `fingerprint`     — the identity of a definition and a trigger.

An operation answers with the run it leaves behind, also when it is refused.
-/

namespace Conveyor

/-- Everything recorded about one stage. Instants are in milliseconds. -/
structure Outcome where
  name : String
  optional : Bool
  status : Status := .pending
  skipReason : Option SkipReason := none
  error : Option Error := none
  exitCode : Option Int := none
  /-- Published values, of a stage that succeeded. -/
  outputs : Dict String := ∅
  stdout : String := ""
  stderr : String := ""
  startedAt : Option Nat := none
  finishedAt : Option Nat := none
  deriving DecidableEq, Repr, Inhabited

namespace Outcome

/-- The time spent running; zero for a stage that never started. -/
def duration (o : Outcome) : Nat :=
  match o.startedAt, o.finishedAt with
  | some start, some finish => finish - start
  | _, _ => 0

/-- The outcome as the gate of a dependent sees it, once it is final. -/
def asDependency (o : Outcome) : Option DependencyOutcome :=
  match o.status with
  | .succeeded => some .succeeded
  | .failed => some (.failed o.optional)
  | .skipped => some .skipped
  | .pending | .queued | .running => none

/-- An outcome that has moved to `next` at an instant. -/
def moveTo (o : Outcome) (next : Status) (now : Nat) : Outcome :=
  if next = .running then { o with status := next, startedAt := some now }
  else if next.isTerminal then { o with status := next, finishedAt := some now }
  else { o with status := next }

end Outcome

structure Run where
  pipeline : Pipeline
  graph : Graph
  trigger : Trigger
  dryRun : Bool := false
  outcomes : List Outcome
  outputs : OutputStore := {}
  cancelled : Bool := false
  clock : Nat := 0
  deriving DecidableEq, Repr, Inhabited

/-- The run after an operation, and the reason if the operation was refused. -/
abbrev Attempt := Run × Option Error

def Attempt.accepted : Attempt → Except Error Run
  | (r, none) => .ok r
  | (_, some e) => .error e

namespace Run

def start (pipeline : Pipeline) (graph : Graph) (trigger : Trigger) (dryRun : Bool) : Run where
  pipeline
  graph
  trigger
  dryRun
  outcomes := pipeline.stages.map fun s => { name := s.name, optional := s.allowFailure }

def outcome? (r : Run) (i : Nat) : Option Outcome := r.outcomes[i]?

def status? (r : Run) (i : Nat) : Option Status := (r.outcome? i).map (·.status)

def outcomeByName? (r : Run) (name : String) : Option Outcome :=
  (r.graph.index? name).bind r.outcome?

def statusOf? (r : Run) (name : String) : Option Status := (r.outcomeByName? name).map (·.status)

def isComplete (r : Run) : Bool := r.outcomes.all (·.status.isTerminal)

def setOutcome (r : Run) (i : Nat) (o : Outcome) : Run := { r with outcomes := r.outcomes.set i o }

def record (r : Run) (i : Nat) (f : Outcome → Outcome) : Run :=
  { r with outcomes := r.outcomes.modify i f }

def illegalStep (o : Outcome) (next : Status) : Error :=
  .invariantViolation ("stage '" ++ o.name ++ "' cannot go from " ++ o.status.name ++ " to " ++
    next.name)

def noSuchStage (i : Nat) : Error := .invariantViolation ("no stage has the index " ++ toString i)

/-- Moves a stage to `next`, refusing any step that is not allowed. -/
def transition (r : Run) (i : Nat) (next : Status) : Attempt :=
  match r.outcome? i with
  | none => (r, some (noSuchStage i))
  | some o =>
    if o.status.canBecome next then (r.setOutcome i (o.moveTo next r.clock), none)
    else (r, some (illegalStep o next))

def markQueued (r : Run) (i : Nat) : Attempt := r.transition i .queued

def markRunning (r : Run) (i : Nat) : Attempt := r.transition i .running

def markSkipped (r : Run) (i : Nat) (reason : SkipReason) : Attempt :=
  match r.transition i .skipped with
  | (r, none) => (r.record i fun o => { o with skipReason := some reason }, none)
  | refused => refused

/-- The first error of a stage is kept. -/
def markFailed (r : Run) (i : Nat) (error : Error) : Attempt :=
  match r.transition i .failed with
  | (r, none) => (r.record i fun o => { o with error := o.error <|> some error }, none)
  | refused => refused

/-- Moves a stage to success, then publishes its outputs. -/
def markSucceeded (r : Run) (i : Nat) (outputs : Dict String) : Attempt :=
  match r.transition i .succeeded with
  | (r, none) =>
    match r.outputs.publish (r.graph.name i) outputs with
    | .error e => (r, some e)
    | .ok store =>
      ({ r with outputs := store }.record i fun o => { o with outputs }, none)
  | refused => refused

def recordLogs (r : Run) (i : Nat) (stdout stderr : String) (exitCode : Option Int) : Run :=
  r.record i fun o => { o with stdout, stderr, exitCode }

/-- The outcomes of some stages, if all of them are final. -/
def dependencyOutcomes? (r : Run) : List Nat → Option Dependencies
  | [] => some []
  | d :: rest =>
    match (r.outcome? d).bind Outcome.asDependency with
    | none => none
    | some o => (dependencyOutcomes? r rest).map ((r.graph.name d, o) :: ·)

/-- The outcomes of the direct dependencies of a stage, if all of them are final. -/
def dependencies? (r : Run) (i : Nat) : Option Dependencies :=
  r.dependencyOutcomes? (r.graph.predecessorsOf i)

def resolveInputs (r : Run) (stage : Stage) : Except Error (Dict String) :=
  r.outputs.resolveInputs stage r.statusOf?

end Run

/-- The text whose hash is the fingerprint: the definition, directly followed by the trigger. -/
def fingerprintText (p : Pipeline) (t : Trigger) : String :=
  p.toJson.compact ++ t.toJson.compact

def fingerprint (p : Pipeline) (t : Trigger) : String :=
  Blake3.hex (fingerprintText p t).toUTF8.toList

end Conveyor
