/-!
# Conveyor.Status

The life of a stage in a run.

* `Status`            — the six states, the last three of them final.
* `Status.canBecome`  — the steps that are allowed, all of them forward.
-/

namespace Conveyor

inductive Status where
  | pending
  /-- Admitted, waiting for a worker or for its concurrency group. -/
  | queued
  | running
  | succeeded
  | failed
  | skipped
  deriving DecidableEq, Repr, Inhabited

namespace Status

def all : List Status := [.pending, .queued, .running, .succeeded, .failed, .skipped]

def name : Status → String
  | .pending => "pending"
  | .queued => "queued"
  | .running => "running"
  | .succeeded => "succeeded"
  | .failed => "failed"
  | .skipped => "skipped"

def ofName? (name : String) : Option Status := all.find? (·.name = name)

def isTerminal : Status → Bool
  | .succeeded | .failed | .skipped => true
  | .pending | .queued | .running => false

/-- A stage starts only from the queue and ends well only after it has started; it can fail or
be skipped until it has ended. -/
def canBecome : Status → Status → Bool
  | .pending, .queued => true
  | .queued, .running => true
  | .running, .succeeded => true
  | .pending, .failed | .queued, .failed | .running, .failed => true
  | .pending, .skipped | .queued, .skipped | .running, .skipped => true
  | _, _ => false

end Status
end Conveyor
