import Conveyor.Error
import Conveyor.Pipeline.Basic
import Conveyor.Status

/-!
# Conveyor.Output.Store

The outputs that the stages of a run have published.

* `OutputStore.publish`       — a stage publishes once; nothing is ever overwritten.
* `OutputStore.resolve`       — the value of a reference, as far as the producer's status allows.
* `OutputStore.resolveInputs` — all inputs of a stage as environment variables.
-/

namespace Conveyor

structure OutputStore where
  published : Dict (Dict String) := ∅
  deriving DecidableEq, Repr, Inhabited

namespace OutputStore

def outputsOf (s : OutputStore) (stage : String) : Option (Dict String) := s.published.get? stage

def publish (s : OutputStore) (stage : String) (values : Dict String) :
    Except Error OutputStore :=
  match s.outputsOf stage with
  | some _ => .error (.outputAlreadyPublished stage)
  | none => .ok { s with published := s.published.insert stage values }

/-- The value that a consumer reads, given the status of its producer. -/
def resolve (s : OutputStore) (consumer : String) (r : OutputRef) (producer : Status) :
    Except Error String :=
  match producer with
  | .succeeded =>
    match (s.outputsOf r.stage).bind (·.get? r.key) with
    | some value => .ok value
    | none => .error (.outputUnavailable consumer r.text "the producer never published it")
  | .failed => .error (.outputUnavailable consumer r.text "the producer failed")
  | .skipped => .error (.outputUnavailable consumer r.text "the producer was skipped")
  | .pending | .queued | .running => .error (.outputNotReady consumer r.text)

def resolveInput (s : OutputStore) (consumer : String) (statusOf : String → Option Status)
    (r : OutputRef) : Except Error String :=
  match statusOf r.stage with
  | none => .error (.stageNotFound r.stage)
  | some status => s.resolve consumer r status

def resolveEntries (s : OutputStore) (consumer : String) (statusOf : String → Option Status) :
    List (String × OutputRef) → Except Error (List (String × String))
  | [] => .ok []
  | (name, r) :: rest =>
    match s.resolveInput consumer statusOf r with
    | .error e => .error e
    | .ok value => (resolveEntries s consumer statusOf rest).map ((name, value) :: ·)

/-- The inputs of a stage, or the error of the first one that cannot be resolved. -/
def resolveInputs (s : OutputStore) (stage : Stage) (statusOf : String → Option Status) :
    Except Error (Dict String) :=
  (s.resolveEntries stage.name statusOf stage.inputs.entries).map Dict.ofList

end OutputStore
end Conveyor
