import Conveyor.Advice
import Conveyor.CommandLine.Request
import Conveyor.CommandLine.Screen
import Conveyor.Execution
import Conveyor.Graph.Picture
import Conveyor.Pipeline.File
import Conveyor.Report.Summary
import Conveyor.Template

/-!
# Conveyor.CommandLine.Action

What the four verbs do.

* `Host`          — what an action knows about where it runs.
* `create`, `validate`, `graph`, `run` — the verbs. Each gives the exit code of the process.
* `Invocation.perform` — the verb of an invocation, in its folder.
-/

namespace Conveyor
namespace CommandLine

/-- What an action knows about where it runs. -/
structure Host where
  environment : SecretProvider
  /-- The identity of a run that is started now. -/
  runId : RunId
  now : Timestamp
  /-- The number of commands that run at once if nobody says one. -/
  workers : Nat := 4

open Screen

def fail {α : Type} (text : String) (help : Option String) : Action α :=
  throw (.message text help)

def load (path : String) : Action Pipeline := do
  let s ← get
  match Pipeline.load s.workspace s.folder path with
  | .ok p => return p
  | .error e => throw (.error e)

/-! ## Starting a pipeline -/

def folderName : Action String := do return (← get).folder.getLast?.getD "my-project"

def writeFile (path content : String) : Action (Option Fault) := do
  let s ← get
  match s.workspace.writeText s.folder path content with
  | .ok workspace =>
    set { s with workspace }
    return none
  | .error f => return some f

def nextSteps : Action Unit := do
  say "Next steps:"
  say ("  1. Edit " ++ (← paint .cyan defaultPipeline) ++ " to describe your stages")
  say ("  2. Run " ++ (← paint .cyan "pipeflow validate") ++ " to check it")
  say ("  3. Run " ++ (← paint .cyan "pipeflow run --dry-run --event push --ref main") ++
    " to see what would run")

def create (name template : Option String) (force verbose : Bool) : Action Nat := do
  let name ← match name with
    | some n => pure n
    | none => folderName
  header "Initializing pipeflow pipeline"
  let s ← get
  if (s.workspace.entryAt? s.folder defaultPipeline).isSome && !force then
    fail (defaultPipeline ++ " already exists") (some "Pass --force to overwrite it")
  match Template.find template with
  | .error message => fail message none
  | .ok t =>
    let content := t.render name
    match ← writeFile defaultPipeline content with
    | some f => fail ("Failed to write " ++ defaultPipeline ++ ": " ++ f.message) none
    | none =>
      success ("Created " ++ defaultPipeline)
      say ""
      say (← paint .boldGreen "Pipeline initialized!")
      say ""
      nextSteps
      say ""
      if verbose then
        say (← paint .dimmed "Generated pipeline:")
        say (← paint .dimmed (String.ofList (List.replicate 50 '─')))
        say (← paint .dimmed content)
      return 0

/-! ## Checking a pipeline -/

def summary (p : Pipeline) : Action Unit := do
  chapter "Pipeline summary"
  say ("  Name: " ++ p.name)
  say ("  Stages: " ++ toString p.stages.length)
  match p.graph with
  | .ok g => say ("  Order: " ++ " → ".intercalate (g.order.map g.name))
  | .error _ => pure ()
  p.stages.forM fun stage => do
    let names := stage.dependencyNames
    let depends := if names.isEmpty then "" else " [depends: " ++ ", ".intercalate names ++ "]"
    say ("    - " ++ stage.name ++ " (" ++ stage.run.label ++ ")" ++ (← paint .dimmed depends))

def validate (path : String) (verbose : Bool) : Action Nat := do
  say (← paint .bold "Validating pipeline...")
  say ""
  let s ← get
  match Pipeline.load s.workspace s.folder path with
  | .error e =>
    error "Failed to parse pipeline"
    complain ""
    throw (.error e)
  | .ok p =>
    success "Pipeline file parsed"
    let v := Validation.ofPipeline p
    if !v.isValid then
      chapter "Errors"
      v.errors.forM error
    if v.hasWarnings then
      chapter "Warnings"
      v.warnings.forM warning
    if verbose && v.isValid then summary p
    say ""
    if !v.isValid then fail "Pipeline validation failed" none
    if v.hasWarnings then say (← paint .boldYellow "Pipeline is valid but has warnings.")
    else say (← paint .boldGreen "Pipeline is valid!")
    return 0

/-! ## Drawing a pipeline -/

def picture (p : Pipeline) (g : Graph) : GraphFormat → String
  | .text => g.listing p
  | .dot => g.dot
  | .mermaid => g.mermaid

def graph (path : String) (format : GraphFormat) : Action Nat := do
  let p ← load path
  match p.graph with
  | .error e => throw (.error e)
  | .ok g =>
    say (picture p g format)
    return 0

/-! ## Running a pipeline -/

def shellMissing (shell : String) : Error :=
  .spawnFailed "" ("'" ++ shell ++ "' not found: cannot find binary path")
    (some ("Install '" ++ shell ++ "' or set 'settings.shell' to a shell that exists"))

def shellsOf (p : Pipeline) : List String :=
  let shells := p.stages.filterMap fun stage =>
    match stage.run with
    | .script _ => some (stage.effectiveShell p.settings)
    | .argv _ => none
  shells.mergeSort fun a b => decide (a ≤ b)

/-- Refuses a pipeline if one of its shells is missing. -/
def checkShells (p : Pipeline) : Action Unit :=
  match (shellsOf p).find? fun s => !Shell.Ending.isFound s with
  | some shell => throw (.error (shellMissing shell))
  | none => return

/-- What a failed stage wrote to its error output, and the advice on its error. -/
def describeFailure (o : Outcome) : Action Unit := do
  complain ""
  complain (← paint .boldRed ("Stage '" ++ o.name ++ "' failed:"))
  if !o.stderr.isEmpty then complain (← paint .dimmed o.stderr)
  match o.error.bind Advice.for? with
  | some advice => complain advice.text
  | none => pure ()

def publish (r : Report) (file : Option String) (verbose : Bool) : Action Unit := do
  let s ← get
  set { s with stdout := s.stdout ++ (r.render? s.colored verbose).getD "" }
  match file with
  | none => pure ()
  | some path =>
    match ← writeFile path r.toJson.pretty with
    | some f => throw (.error (.fileWriteError path f.message))
    | none => info ("Report written to " ++ path)

def run (h : Host) (a : RunArgs) (verbose : Bool) : Action Nat := do
  let p ← load a.pipeline
  let v := Validation.ofPipeline p
  if !v.isValid then
    complain (← paint .boldRed "Pipeline validation failed:")
    v.errors.forM error
    fail "Pipeline configuration is invalid" none
  if v.hasWarnings && verbose then
    complain (← paint .boldYellow "Pipeline warnings:")
    v.warnings.forM warning
    complain ""
  if !a.dryRun then checkShells p
  let s ← get
  let (result, workspace) := Execution.execute p (Trigger.mk a.event a.ref) h.runId.text
    { maxParallel := a.maxParallel, dryRun := a.dryRun, hostWorkers := h.workers
      secrets := h.environment } s.workspace s.folder
  set { s with workspace }
  match result with
  | .error e =>
    match (if verbose then Advice.for? e else none) with
    | some advice => complain advice.text
    | none => pure ()
    throw (.error e)
  | .ok r =>
    let report := Report.ofRun r h.runId h.now
    publish report a.report verbose
    if verbose then (r.outcomes.filter fun o => o.status = .failed).forM describeFailure
    return report.exitCode

/-! ## Invocations -/

def goTo (directory : String) : Action Unit := do
  let s ← get
  let place : Except Fault Path :=
    match s.workspace.walk s.folder directory with
    | .error f => .error f
    | .ok p =>
      match s.workspace.find? p with
      | some .folder => .ok p
      | some _ => .error .notFolder
      | none => .error .notFound
  match place with
  | .ok folder => set { s with folder }
  | .error f => fail ("Failed to change to directory '" ++ directory ++ "': " ++ f.message) none

/-- What an invocation does. -/
def Invocation.perform (i : Invocation) (h : Host) : Action Nat := do
  match i.directory with
  | some d => goTo d
  | none => pure ()
  match i.request with
  | .init name template force => create name template force i.verbose
  | .run a => run h a i.verbose
  | .validate path => validate path i.verbose
  | .graph path format => graph path format

end CommandLine
end Conveyor
