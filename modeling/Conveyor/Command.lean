import Conveyor.Output.Marker
import Conveyor.Secret

/-!
# Conveyor.Command

What the scheduler asks for when it starts a stage, and what it gets back.

* `Signal`         — what a command knows of the channel on which it is told to stop.
* `CommandRequest` — a command with its environment and its secrets.
* `CommandOutput`  — how a command ended and what it printed.
-/

namespace Conveyor

/-- One end of a channel on which commands are told to stop. -/
structure Signal where
  channel : Nat := 0
  /-- When the channel was fired. -/
  firedAt : Option Nat := none
  deriving DecidableEq, Repr, Inhabited

structure CommandRequest where
  stage : String
  command : Command
  shell : String
  /-- The variables of the pipeline, of the stage, of the run, and the inputs. -/
  env : Dict String
  secrets : Lease
  /-- Seconds between the request to stop and the kill. -/
  graceSecs : UInt64
  /-- Fires when the run is aborted. -/
  cancel : Signal := {}
  deriving DecidableEq, Repr, Inhabited

structure CommandOutput where
  /-- Absent when a signal killed the command. -/
  exitCode : Option Int := none
  stdout : String := ""
  stderr : String := ""
  /-- Every marker on the standard output. -/
  outputs : Dict String := ∅
  /-- The command was stopped because the run was aborted. -/
  cancelled : Bool := false
  deriving DecidableEq, Repr, Inhabited

namespace CommandOutput

def success (o : CommandOutput) : Bool := o.exitCode = some 0 && !o.cancelled

def ofStdout (stdout : String) : CommandOutput where
  exitCode := some 0
  stdout
  outputs := Marker.collect stdout

end CommandOutput
end Conveyor
