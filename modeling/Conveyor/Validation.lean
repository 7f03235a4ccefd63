import Conveyor.Condition.Parser
import Conveyor.Glob
import Conveyor.Graph.Basic

/-!
# Conveyor.Validation

Checks of a definition before it runs. Errors stop a run before any stage starts; warnings
point at what loads and probably does not do what its author meant.

* `Validation.ofPipeline` — all findings, in the order of the definition.
* `Pipeline.ensureValid`  — the graph of a definition without errors, or its first error.
-/

namespace Conveyor

/-- A name that a stage can have: ASCII letters, digits, dashes and underscores, a dash not
first. -/
def isStageName (name : String) : Bool :=
  match name.toList with
  | [] => false
  | c :: cs => (c.isAlphanum || c = '_') && cs.all fun d => d.isAlphanum || d = '_' || d = '-'

def isVariableName (name : String) : Bool :=
  match name.toList with
  | [] => false
  | c :: cs => (c.isAlpha || c = '_') && cs.all fun d => d.isAlphanum || d = '_'

inductive Finding where
  | error (text : String)
  | warning (text : String)
  deriving DecidableEq, Repr

structure Validation where
  findings : List Finding
  deriving DecidableEq, Repr

namespace Validation

def errors (v : Validation) : List String :=
  v.findings.filterMap fun
    | .error text => some text
    | .warning _ => none

def warnings (v : Validation) : List String :=
  v.findings.filterMap fun
    | .warning text => some text
    | .error _ => none

def isValid (v : Validation) : Bool := v.errors.isEmpty

def hasWarnings (v : Validation) : Bool := !v.warnings.isEmpty

def about (stage : Stage) (text : String) : String := "Stage '" ++ stage.name ++ "': " ++ text

def failsWhenGated : String := " (the stage will fail when gated)"

/-- What is wrong with one input of a stage. A producer that is no stage is the graph's
business. -/
def inputFindings (p : Pipeline) (stage : Stage) (name : String) (r : OutputRef) :
    List Finding :=
  let nameErrors :=
    if isVariableName name then []
    else [.error (about stage ("input name '" ++ name ++
      "' is not a valid environment variable"))]
  match p.stage? r.stage with
  | none => nameErrors
  | some producer =>
    nameErrors ++
      (if producer.outputs.contains r.key then []
       else [.error (Error.unknownOutput stage.name r.text).message]) ++
      (if stage.dependsOn.contains r.stage then []
       else [.warning (about stage ("reads '" ++ r.text ++
         "' but doesn't declare a dependency on '" ++ r.stage ++
         "'. This will be added implicitly."))])

/-- A warning for every key that was declared before. -/
def repeatedOutputs (stage : Stage) (seen : List String) : List String → List Finding
  | [] => []
  | key :: rest =>
    if key ∈ seen then
      .warning (about stage ("output '" ++ key ++ "' is declared twice")) ::
        repeatedOutputs stage seen rest
    else repeatedOutputs stage (key :: seen) rest

def secretFindings (stage : Stage) : List Finding :=
  stage.secrets.filterMap fun secret =>
    if isVariableName secret then none
    else some (.error (about stage ("secret name '" ++ secret ++
      "' is not a valid environment variable")))

def patternFindings (stage : Stage) : List Finding :=
  (stage.conditions.branches ++ stage.conditions.branchesIgnore).filterMap fun pattern =>
    match Glob.compile pattern with
    | .ok _ => none
    | .error flaw =>
      some (.warning (about stage ((flaw.toError pattern).message ++ failsWhenGated)))

def conditionFindings (stage : Stage) : List Finding :=
  match stage.conditions.expression with
  | none => []
  | some source =>
    match Condition.parse source with
    | .ok _ => []
    | .error e =>
      [.warning (about stage ("condition '" ++ source ++ "' is malformed: " ++ e.message ++
        failsWhenGated))]

def policyFindings (stage : Stage) : List Finding :=
  if stage.onFailure ≠ .propagate ∧ stage.dependencyNames = [] then
    [.warning (about stage "on_failure has no effect on a stage without dependencies")]
  else []

def stageFindings (p : Pipeline) (stage : Stage) : List Finding :=
  (if isStageName stage.name then []
   else [.error ("Stage name '" ++ stage.name ++
     "' may only contain letters, digits, '-' and '_'")]) ++
  (if stage.run.isEmpty then [.error (about stage "command is empty")] else []) ++
  (if stage.timeoutSecs = some 0 then [.error (about stage "timeout_secs must be positive")]
   else []) ++
  (stage.inputs.entries.flatMap fun (name, r) => inputFindings p stage name r) ++
  repeatedOutputs stage [] stage.outputs ++
  secretFindings stage ++
  patternFindings stage ++
  conditionFindings stage ++
  policyFindings stage

def graphFindings (p : Pipeline) : List Finding :=
  match p.graph with
  | .ok _ => []
  | .error e => [.error e.message]

def ofPipeline (p : Pipeline) : Validation where
  findings :=
    (if p.stages.isEmpty then [.error "Pipeline has no stages defined"] else []) ++
    (if p.settings.maxParallel = some 0 then
      [.error "settings.max_parallel must be at least 1"] else []) ++
    graphFindings p ++
    p.stages.flatMap (stageFindings p)

def moreErrors (count : Nat) : Option String :=
  if count = 0 then none
  else some (toString count ++
    " more error(s); run 'pipeflow validate' for the full list")

end Validation

/-- The graph of a valid definition. The errors of the graph keep their own cause; any other
is an invalid definition with the first error as its reason. -/
def Pipeline.ensureValid (p : Pipeline) : Except Error Graph :=
  match p.graph with
  | .error e => .error e
  | .ok g =>
    match (Validation.ofPipeline p).errors with
    | [] => .ok g
    | reason :: more =>
      .error (.invalidPipeline reason (Validation.moreErrors more.length))

end Conveyor
