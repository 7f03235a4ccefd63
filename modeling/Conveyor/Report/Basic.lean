import Conveyor.Json.Printer
import Conveyor.Run
import Conveyor.RunId
import Conveyor.Timestamp

/-!
# Conveyor.Report.Basic

The report of a finished run.

* `RunStatus`    — the overall result, and the exit code of the process.
* `StageSummary` — one stage of the report.
* `Report`       — the whole of it; `Report.ofRun` makes it and `Report.toJson` writes it.
-/

namespace Conveyor

inductive RunStatus where
  | succeeded
  /-- A stage that must not fail failed. -/
  | failed
  /-- Only stages failed that are allowed to. -/
  | partialSuccess
  | cancelled
  deriving DecidableEq, Repr, Inhabited

namespace RunStatus

def exitCode : RunStatus → Nat
  | .succeeded => 0
  | .failed => 1
  | .partialSuccess => 3
  | .cancelled => 130

def text : RunStatus → String
  | .succeeded => "succeeded"
  | .failed => "failed"
  | .partialSuccess => "partial success"
  | .cancelled => "cancelled"

def name : RunStatus → String
  | .succeeded => "succeeded"
  | .failed => "failed"
  | .partialSuccess => "partial_success"
  | .cancelled => "cancelled"

def ofName? (name : String) : Option RunStatus :=
  [succeeded, failed, partialSuccess, cancelled].find? (·.name = name)

/-- The result of a run with these outcomes. -/
def ofOutcomes (outcomes : List Outcome) (cancelled : Bool) : RunStatus :=
  let failures := outcomes.filter (·.status = .failed)
  if cancelled then .cancelled
  else if failures.any (!·.optional) then .failed
  else if failures.isEmpty then .succeeded
  else .partialSuccess

end RunStatus

structure StageSummary where
  name : String
  status : Status
  optional : Bool := false
  skipReason : Option SkipReason := none
  durationMillis : Nat := 0
  exitCode : Option Int := none
  error : Option String := none
  errorKind : Option String := none
  outputs : Dict String := ∅
  deriving DecidableEq, Repr, Inhabited

namespace StageSummary

def ofOutcome (o : Outcome) : StageSummary where
  name := o.name
  status := o.status
  optional := o.optional
  skipReason := o.skipReason
  durationMillis := o.duration
  exitCode := o.exitCode
  error := o.error.map Error.message
  errorKind := o.error.map Error.kind
  outputs := o.outputs

/-- A field that is left out when there is nothing to say. -/
def present (name : String) (value : Option Json) : List (String × Json) :=
  match value with
  | some j => [(name, j)]
  | none => []

def toJson (s : StageSummary) : Json :=
  .obj ([("name", .str s.name), ("status", .str s.status.name), ("optional", .bool s.optional)] ++
    present "skip_reason" (s.skipReason.map SkipReason.toJson) ++
    [("duration_ms", Json.nat s.durationMillis)] ++
    present "exit_code" (s.exitCode.map Json.int) ++
    present "error" (s.error.map Json.str) ++
    present "error_kind" (s.errorKind.map Json.str) ++
    (if s.outputs.isEmpty then [] else [("outputs", s.outputs.toJson)]))

end StageSummary

structure Report where
  runId : RunId
  pipeline : String
  trigger : Trigger
  startedAt : Timestamp
  fingerprint : String
  dryRun : Bool
  status : RunStatus
  durationMillis : Nat
  stages : List StageSummary
  deriving Repr, Inhabited

namespace Report

def ofRun (r : Run) (runId : RunId) (startedAt : Timestamp) : Report where
  runId
  pipeline := r.pipeline.name
  trigger := r.trigger
  startedAt
  fingerprint := Conveyor.fingerprint r.pipeline r.trigger
  dryRun := r.dryRun
  status := RunStatus.ofOutcomes r.outcomes r.cancelled
  durationMillis := r.clock
  stages := r.outcomes.map StageSummary.ofOutcome

/-- The report as if no time had passed. -/
def withoutDurations (r : Report) : Report :=
  { r with durationMillis := 0, stages := r.stages.map fun s => { s with durationMillis := 0 } }

def exitCode (r : Report) : Nat := r.status.exitCode

def stage? (r : Report) (name : String) : Option StageSummary :=
  r.stages.find? fun s => s.name = name

def count (r : Report) (status : Status) : Nat := (r.stages.filter (·.status = status)).length

/-- One line with the result and the numbers of stages. -/
def headline (r : Report) : String :=
  r.status.text ++ ": " ++ toString (r.count .succeeded) ++ " succeeded, " ++
    toString (r.count .failed) ++ " failed, " ++ toString (r.count .skipped) ++ " skipped"

def toJson (r : Report) : Json :=
  .obj [("run_id", .str r.runId.text),
    ("pipeline", .str r.pipeline),
    ("trigger", r.trigger.toJson),
    ("started_at", .str r.startedAt.text),
    ("fingerprint", .str r.fingerprint),
    ("dry_run", .bool r.dryRun),
    ("status", .str r.status.name),
    ("duration_ms", Json.nat r.durationMillis),
    ("stages", .arr (r.stages.map StageSummary.toJson))]

end Report
end Conveyor
