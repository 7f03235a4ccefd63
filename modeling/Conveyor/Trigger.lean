import Conveyor.Json.Basic
import Conveyor.Pipeline.Basic

/-!
# Conveyor.Trigger

What started a run, and what a stage can learn about the run before it is admitted.

* `Trigger`         — the event and the ref.
* `DependencyOutcome` — a finished dependency, as a gate sees it.
* `SkipReason`      — why a stage did not run.
-/

namespace Conveyor

structure Trigger where
  event : EventKind
  /-- The ref as given, `main` or `refs/heads/main`. -/
  ref : String
  deriving DecidableEq, Repr, Inhabited

/-- The branch that a ref names; any other ref stands for itself. -/
def branchName (ref : String) : String :=
  match Text.dropPrefix "refs/heads/".toList ref.toList with
  | some branch => String.ofList branch
  | none => ref

namespace Trigger

def branch (t : Trigger) : String := branchName t.ref

def text (t : Trigger) : String := t.event.name ++ " on " ++ t.ref

def toJson (t : Trigger) : Json := .obj [("event", .str t.event.name), ("ref", .str t.ref)]

end Trigger

inductive DependencyOutcome where
  | succeeded
  /-- `optional` marks a failure that its stage is allowed. -/
  | failed (optional : Bool)
  | skipped
  deriving DecidableEq, Repr, Inhabited

namespace DependencyOutcome

/-- A dependent that propagates failures may run after it. -/
def satisfies : DependencyOutcome → Bool
  | .succeeded | .failed true => true
  | .failed false | .skipped => false

def name : DependencyOutcome → String
  | .succeeded => "success"
  | .failed _ => "failure"
  | .skipped => "skipped"

end DependencyOutcome

/-- The direct dependencies of a stage, by name, with their outcomes. -/
abbrev Dependencies := List (String × DependencyOutcome)

inductive SkipReason where
  | dependencyNotSucceeded (stage : String)
  | eventFiltered
  | branchFiltered
  | conditionFalse
  | failFast (stage : String)
  | cancelled
  deriving DecidableEq, Repr, Inhabited

namespace SkipReason

def text : SkipReason → String
  | .dependencyNotSucceeded stage => "'" ++ stage ++ "' did not succeed"
  | .eventFiltered => "event not selected"
  | .branchFiltered => "branch not selected"
  | .conditionFalse => "condition is false"
  | .failFast stage => "fail-fast after '" ++ stage ++ "' failed"
  | .cancelled => "cancelled"

def toJson : SkipReason → Json
  | .dependencyNotSucceeded stage =>
    .obj [("reason", .str "upstream_not_succeeded"), ("stage", .str stage)]
  | .eventFiltered => .obj [("reason", .str "event_filtered")]
  | .branchFiltered => .obj [("reason", .str "branch_filtered")]
  | .conditionFalse => .obj [("reason", .str "condition_false")]
  | .failFast stage => .obj [("reason", .str "fail_fast"), ("stage", .str stage)]
  | .cancelled => .obj [("reason", .str "cancelled")]

end SkipReason
end Conveyor
