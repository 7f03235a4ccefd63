/-!
# Conveyor.Error

What can go wrong, from a definition that cannot be used to the failure of one stage.

* `Error`         — the causes, each with the names that its message needs.
* `Error.message` — the wording, in one place.
* `Error.isFatal` — whether the whole run is unusable, rather than one stage.
* `Error.kind`, `Error.code`, `Error.help` — the short label, the diagnostic code, the hint.
-/

namespace Conveyor

inductive Error where
  | pipelineNotFound (path : String)
  | invalidPipeline (reason : String) (help : Option String)
  | duplicateStage (stage : String)
  /-- The stages on a cycle, the first one repeated at the end. -/
  | cyclicDependency (stages : List String)
  | unknownDependency (stage dependency : String)
  | unknownOutput (stage reference : String)
  | stageNotFound (stage : String)
  | gateEvaluation (stage message : String)
  | branchPattern (pattern message : String)
  /-- The limit that was exceeded, in milliseconds. -/
  | timeout (stage : String) (millis : Nat)
  | commandFailure (stage : String) (exitCode : Int) (stderr : String)
  | spawnFailed (stage message : String) (help : Option String)
  | outputNotReady (stage reference : String)
  | outputUnavailable (stage reference reason : String)
  | outputAlreadyPublished (stage : String)
  | secretUnavailable (stage name : String)
  | cancelled
  | invariantViolation (message : String)
  | fileReadError (path message : String)
  | fileWriteError (path message : String)
  | io (message : String)
  | yaml (message : String)
  | json (message : String)
  | toml (message : String)
  deriving DecidableEq, Repr, Inhabited

namespace Error

def wholeSeconds (millis : Nat) : Nat := millis / 1000

def message : Error → String
  | .pipelineNotFound path => "Pipeline file not found: " ++ path
  | .invalidPipeline reason _ => "Invalid pipeline configuration: " ++ reason
  | .duplicateStage stage => "Stage '" ++ stage ++ "' is defined more than once"
  | .cyclicDependency stages => "Cyclic dependency detected: " ++ " → ".intercalate stages
  | .unknownDependency stage dependency =>
    "Stage '" ++ stage ++ "' depends on unknown stage '" ++ dependency ++ "'"
  | .unknownOutput stage reference =>
    "Stage '" ++ stage ++ "' reads '" ++ reference ++ "', which is not a declared output"
  | .stageNotFound stage => "Stage '" ++ stage ++ "' not found in pipeline"
  | .gateEvaluation stage message =>
    "Condition for stage '" ++ stage ++ "' is malformed: " ++ message
  | .branchPattern pattern message => "Invalid branch pattern '" ++ pattern ++ "': " ++ message
  | .timeout stage millis =>
    "Stage '" ++ stage ++ "' timed out after " ++ toString (wholeSeconds millis) ++ "s"
  | .commandFailure stage exitCode _ =>
    "Stage '" ++ stage ++ "' exited with code " ++ toString exitCode
  | .spawnFailed stage message _ =>
    "Failed to start command for stage '" ++ stage ++ "': " ++ message
  | .outputNotReady stage reference =>
    "Output '" ++ reference ++ "' read by stage '" ++ stage ++ "' is not ready yet"
  | .outputUnavailable stage reference reason =>
    "Output '" ++ reference ++ "' read by stage '" ++ stage ++ "' is unavailable: " ++ reason
  | .outputAlreadyPublished stage => "Stage '" ++ stage ++ "' already published its outputs"
  | .secretUnavailable stage name =>
    "Secret '" ++ name ++ "' requested by stage '" ++ stage ++ "' is not available"
  | .cancelled => "Run cancelled"
  | .invariantViolation message => "Scheduler invariant violated: " ++ message
  | .fileReadError path message => "Failed to read file '" ++ path ++ "': " ++ message
  | .fileWriteError path message => "Failed to write file '" ++ path ++ "': " ++ message
  | .io message => "IO error: " ++ message
  | .yaml message => "YAML parsing error: " ++ message
  | .json message => "JSON parsing error: " ++ message
  | .toml message => "TOML parsing error: " ++ message

/-- The error makes the whole run unusable, rather than one stage. -/
def isFatal : Error → Bool
  | .cyclicDependency _ | .unknownDependency _ _ | .unknownOutput _ _ | .duplicateStage _
  | .invalidPipeline _ _ | .invariantViolation _ | .outputAlreadyPublished _ => true
  | _ => false

/-- The label used in summaries of runs. -/
def kind : Error → String
  | .cyclicDependency _ => "cyclic-dependency"
  | .gateEvaluation _ _ | .branchPattern _ _ => "gate-evaluation"
  | .timeout _ _ => "timeout"
  | .commandFailure _ _ _ | .spawnFailed _ _ _ => "command-failure"
  | .outputNotReady _ _ => "output-not-ready"
  | .outputUnavailable _ _ _ => "output-unavailable"
  | .secretUnavailable _ _ => "secret-unavailable"
  | .cancelled => "cancelled"
  | .invariantViolation _ | .outputAlreadyPublished _ => "internal"
  | _ => "definition"

def code : Error → String
  | .pipelineNotFound _ => "pipeflow::pipeline_not_found"
  | .invalidPipeline _ _ => "pipeflow::invalid_pipeline"
  | .duplicateStage _ => "pipeflow::duplicate_stage"
  | .cyclicDependency _ => "pipeflow::cyclic_dependency"
  | .unknownDependency _ _ => "pipeflow::unknown_dependency"
  | .unknownOutput _ _ => "pipeflow::unknown_output"
  | .stageNotFound _ => "pipeflow::stage_not_found"
  | .gateEvaluation _ _ => "pipeflow::gate_evaluation"
  | .branchPattern _ _ => "pipeflow::branch_pattern"
  | .timeout _ _ => "pipeflow::timeout"
  | .commandFailure _ _ _ => "pipeflow::command_failure"
  | .spawnFailed _ _ _ => "pipeflow::spawn_failed"
  | .outputNotReady _ _ => "pipeflow::output_not_ready"
  | .outputUnavailable _ _ _ => "pipeflow::output_unavailable"
  | .outputAlreadyPublished _ => "pipeflow::output_already_published"
  | .secretUnavailable _ _ => "pipeflow::secret_unavailable"
  | .cancelled => "pipeflow::cancelled"
  | .invariantViolation _ => "pipeflow::invariant_violation"
  | .fileReadError _ _ => "pipeflow::file_read_error"
  | .fileWriteError _ _ => "pipeflow::file_write_error"
  | .io _ => "pipeflow::io_error"
  | .yaml _ => "pipeflow::yaml_error"
  | .json _ => "pipeflow::json_error"
  | .toml _ => "pipeflow::toml_error"

/-- A hint for the author of the definition. -/
def help : Error → Option String
  | .pipelineNotFound _ =>
    some "Create a pipeline with 'pipeflow init' or write .pipeflow.yaml manually"
  | .invalidPipeline _ help => help
  | .duplicateStage _ => some "Stage names must be unique within a pipeline"
  | .cyclicDependency _ =>
    some "Review your stage dependencies and input references to remove the cycle"
  | .unknownDependency _ dependency =>
    some ("Check that '" ++ dependency ++ "' is defined in your pipeline")
  | .unknownOutput _ _ => some "List the key under 'outputs' of the producing stage"
  | .gateEvaluation _ _ =>
    some "Conditions use &&, ||, !, ==, != and functions like success() or matches()"
  | .timeout _ _ =>
    some "Raise 'timeout_secs' on the stage or in settings if the work needs longer"
  | .spawnFailed _ _ help => help
  | .secretUnavailable _ name =>
    some ("Export '" ++ name ++ "' in the environment that runs pipeflow")
  | _ => none

/-- A program that could not be started, with the hint that it may be missing. -/
def ofSpawn (stage program message : String) : Error :=
  .spawnFailed stage message (some ("'" ++ program ++ "' may not be installed or on PATH"))

end Error
end Conveyor
