import Conveyor.Dict
import Conveyor.Text.Blank
import Conveyor.Text.Lines
import Conveyor.Text.Search

/-!
# Conveyor.Pipeline.Basic

The definition of a pipeline: settings, environment, and stages in declaration order.

* `Command`    — a script for a shell, or a program with its arguments.
* `OutputRef`  — an output of another stage, written `stage.key`.
* `EventKind`  — what can start a run.
* `Policy`     — how a stage reacts when its dependencies did not all succeed.
* `Conditions`, `Settings`, `Stage`, `Pipeline` — the definition itself.

Counts and durations in seconds are 64-bit words, the range in which definitions are read.
-/

namespace Conveyor

inductive Command where
  /-- A script, handed to the shell of the stage. -/
  | script (text : String)
  /-- A program and its arguments, run directly. -/
  | argv (words : List String)
  deriving DecidableEq, Repr, Inhabited

namespace Command

def isEmpty : Command → Bool
  | .script text => text.toList.all isBlank
  | .argv [] => true
  | .argv (program :: _) => program = ""

/-- A one-line description: the first line of a script, marked when more follow. -/
def label : Command → String
  | .argv words => " ".intercalate words
  | .script text =>
    match Text.lines text with
    | [] => ""
    | [line] => Text.trim line
    | line :: _ => Text.trim line ++ " …"

end Command

/-! ## References to outputs -/

structure OutputRef where
  stage : String
  key : String
  deriving DecidableEq, Repr, Inhabited

namespace OutputRef

def text (r : OutputRef) : String := r.stage ++ "." ++ r.key

/-- Reads `stage.key`, cut at the first point. Both parts must be there; blanks around them
are dropped. -/
def parse (s : String) : Except String OutputRef :=
  match Text.splitOnce '.' s.toList with
  | some (stage, key) =>
    if stage.isEmpty || key.isEmpty then .error (malformed s)
    else .ok ⟨Text.trim (String.ofList stage), Text.trim (String.ofList key)⟩
  | none => .error (malformed s)
where
  malformed (s : String) : String :=
    "Output reference '" ++ s ++ "' must have the form '<stage>.<key>'"

end OutputRef

/-! ## Events and policies -/

/-- What started a run. -/
inductive EventKind where
  | push
  | pullRequest
  | manual
  | schedule
  deriving DecidableEq, Repr, Inhabited

namespace EventKind

def name : EventKind → String
  | .push => "push"
  | .pullRequest => "pull_request"
  | .manual => "manual"
  | .schedule => "schedule"

/-- The names that a definition may use. -/
def ofField? (s : String) : Option EventKind :=
  match s with
  | "push" => some .push
  | "pull_request" | "pull-request" => some .pullRequest
  | "manual" | "dispatch" | "workflow_dispatch" => some .manual
  | "schedule" => some .schedule
  | _ => none

/-- One character of an event name in its canonical case. Besides the ASCII capitals only the
Kelvin sign has an ASCII letter as its lower case; a dash stands for an underscore. -/
def foldChar (c : Char) : Char :=
  if c = '-' then '_'
  else if c.toNat = 0x212A then 'k'
  else c.toLower

/-- Reads the name of an event in any case, also in its short forms. -/
def parse (s : String) : Except String EventKind :=
  match String.ofList (s.toList.map foldChar) with
  | "push" => .ok .push
  | "pull_request" | "pr" => .ok .pullRequest
  | "manual" | "dispatch" | "workflow_dispatch" => .ok .manual
  | "schedule" | "cron" => .ok .schedule
  | _ =>
    .error ("Unknown event type: " ++ s ++ " (expected push, pull_request, manual, schedule)")

end EventKind

/-- How a stage reacts when its dependencies did not all succeed. -/
inductive Policy where
  /-- It is skipped. -/
  | propagate
  /-- It runs once they are finished. -/
  | proceed
  /-- It runs once they are finished, and no fail-fast skips it while it waits. -/
  | always
  deriving DecidableEq, Repr, Inhabited

namespace Policy

def name : Policy → String
  | .propagate => "propagate"
  | .proceed => "continue"
  | .always => "always"

def ofField? (s : String) : Option Policy :=
  match s with
  | "propagate" => some .propagate
  | "continue" => some .proceed
  | "always" | "always_run" => some .always
  | _ => none

end Policy

/-! ## Definitions -/

/-- Filters on the trigger, and a condition. Empty lists filter nothing. -/
structure Conditions where
  events : List EventKind := []
  branches : List String := []
  branchesIgnore : List String := []
  expression : Option String := none
  deriving DecidableEq, Repr, Inhabited

/-- No filter is set at all. -/
def Conditions.isUnconditional (c : Conditions) : Bool :=
  c.events.isEmpty && c.branches.isEmpty && c.branchesIgnore.isEmpty && c.expression.isNone

structure Settings where
  maxParallel : Option UInt64 := none
  timeoutSecs : Option UInt64 := none
  cancelGraceSecs : UInt64 := 10
  failFast : Bool := false
  shell : String := "bash"
  deriving DecidableEq, Repr, Inhabited

structure Stage where
  name : String
  description : Option String := none
  run : Command
  shell : Option String := none
  dependsOn : List String := []
  /-- Environment variables bound to outputs of other stages. -/
  inputs : Dict OutputRef := ∅
  /-- The keys that the stage publishes. -/
  outputs : List String := []
  conditions : Conditions := {}
  onFailure : Policy := .propagate
  allowFailure : Bool := false
  failFastGroup : Option String := none
  concurrencyGroup : Option String := none
  timeoutSecs : Option UInt64 := none
  env : Dict String := ∅
  secrets : List String := []
  deriving DecidableEq, Repr, Inhabited

namespace Stage

/-- The first mentions in a list of names. -/
def firstMentions (seen : List String) : List String → List String
  | [] => []
  | n :: rest => if n ∈ seen then firstMentions seen rest else n :: firstMentions (n :: seen) rest

/-- Every stage that this one waits for, explicitly or through an input, in order of first
mention. -/
def dependencyNames (s : Stage) : List String :=
  firstMentions [] (s.dependsOn ++ s.inputs.values.map (·.stage))

/-- The limit on the command in seconds. -/
def timeout (s : Stage) (settings : Settings) : Option UInt64 :=
  match s.timeoutSecs with
  | some t => some t
  | none => settings.timeoutSecs

def effectiveShell (s : Stage) (settings : Settings) : String := s.shell.getD settings.shell

end Stage

structure Pipeline where
  version : String := "1"
  name : String
  description : Option String := none
  settings : Settings := {}
  env : Dict String := ∅
  stages : List Stage
  deriving DecidableEq, Repr, Inhabited

namespace Pipeline

def stageNames (p : Pipeline) : List String := p.stages.map (·.name)

def stage? (p : Pipeline) (name : String) : Option Stage := p.stages.find? (·.name = name)

end Pipeline
end Conveyor
