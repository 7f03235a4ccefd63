import Conveyor.Condition.Eval
import Conveyor.Condition.Parser
import Conveyor.Error

/-!
# Conveyor.Gate

Admission of a stage whose dependencies are all finished. The checks come in a fixed order and
the first that refuses decides: the outcomes of the dependencies, the event, the branch, the
ignored branches, the condition.

* `matchesAny`  — whether any glob of a list matches a branch.
* `Gate.decide` — allow, skip with a reason, or an error that fails the stage.
-/

namespace Conveyor

/-- Whether any of the globs matches the branch. Globs after the first match are not read. -/
def matchesAny (branch : String) : List String → Except Error Bool
  | [] => .ok false
  | pattern :: rest =>
    match Glob.compile pattern with
    | .error flaw => .error (flaw.toError pattern)
    | .ok g => if g.accepts branch then .ok true else matchesAny branch rest

inductive Decision where
  | allow
  | skip (reason : SkipReason)
  deriving DecidableEq, Repr, Inhabited

namespace Gate

/-- The first dependency that a stage which propagates failures cannot run after. -/
def blocker? (dependencies : Dependencies) : Option String :=
  (dependencies.find? fun (_, o) => !o.satisfies).map (·.1)

/-- The dependency that the policy of a stage makes it stop at. -/
def stoppedBy? (stage : Stage) (dependencies : Dependencies) : Option String :=
  if stage.onFailure = .propagate then blocker? dependencies else none

/-- The condition of a stage. A condition that cannot be read or evaluated is an error. -/
def decideCondition (trigger : Trigger) (stage : Stage) (dependencies : Dependencies) :
    Except Error Decision :=
  match stage.conditions.expression with
  | none => .ok .allow
  | some source =>
    match Condition.parse source with
    | .error e => .error (.gateEvaluation stage.name e.message)
    | .ok expr =>
      match expr.evaluate ⟨trigger, dependencies⟩ with
      | .error e => .error (.gateEvaluation stage.name e.message)
      | .ok true => .ok .allow
      | .ok false => .ok (.skip .conditionFalse)

/-- The branch filters of a stage, then its condition. -/
def decideBranch (trigger : Trigger) (stage : Stage) (dependencies : Dependencies) :
    Except Error Decision :=
  let wanted :=
    if stage.conditions.branches.isEmpty then .ok true
    else matchesAny trigger.branch stage.conditions.branches
  match wanted with
  | .error e => .error (.gateEvaluation stage.name e.message)
  | .ok false => .ok (.skip .branchFiltered)
  | .ok true =>
    match matchesAny trigger.branch stage.conditions.branchesIgnore with
    | .error e => .error (.gateEvaluation stage.name e.message)
    | .ok true => .ok (.skip .branchFiltered)
    | .ok false => decideCondition trigger stage dependencies

/-- Whether a stage runs, given the outcomes of its direct dependencies. -/
def decide (trigger : Trigger) (stage : Stage) (dependencies : Dependencies) :
    Except Error Decision :=
  match stoppedBy? stage dependencies with
  | some name => .ok (.skip (.dependencyNotSucceeded name))
  | none =>
    if !stage.conditions.events.isEmpty && !stage.conditions.events.contains trigger.event then
      .ok (.skip .eventFiltered)
    else decideBranch trigger stage dependencies

end Gate
end Conveyor
