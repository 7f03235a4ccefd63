import Conveyor.Scheduler
import Conveyor.Shell.Ending

/-!
# Conveyor.Execution

Runs whose commands are processes on a workspace.

A command is started on the workspace as it is at that instant. What it changed is applied when
it ends; a command that is stopped or outlasts the limit of its stage changes nothing.

* `Job`      — a command that was started, with how it will end.
* `World`    — the workspace and the jobs.
* `execute`  — the whole run.
-/

namespace Conveyor
namespace Execution

/-- A command that was started, with how it will end if nothing stops it. -/
structure Job where
  stage : Nat
  base : Workspace
  ending : Except Error Shell.Ending

structure World where
  workspace : Workspace
  folder : Path
  jobs : List Job := []

namespace World

def job? (w : World) (stage : Nat) : Option Job := w.jobs.find? fun j => j.stage = stage

def start (w : World) (commands : List Scheduler.InFlight) : World :=
  let new := commands.filter fun c => (w.job? c.stage).isNone
  { w with jobs := w.jobs ++ new.map fun c =>
      { stage := c.stage, base := w.workspace
        ending := Shell.Ending.execute w.workspace w.folder c.request } }

/-- Forgets a job, and applies its changes if it came to its end. -/
def finish (w : World) (stage : Nat) (ended : Bool) : World :=
  let jobs := w.jobs.filter fun j => j.stage ≠ stage
  match ended, w.job? stage with
  | true, some { base, ending := .ok p, .. } =>
    { w with jobs, workspace := w.workspace.applyChanges base p.workspace }
  | _, _ => { w with jobs }

end World

inductive Due where
  | ends
  | stops
  | expires
  deriving DecidableEq, Repr

/-- When a job ends by itself. One that could not be started ends at once, and so does one that
would never end, as there is no instant for it. -/
def endOf (c : Scheduler.InFlight) (j : Job) : Nat :=
  match j.ending with
  | .error _ => c.startedAt
  | .ok p => c.startedAt + p.elapsed.getD 0

def isEndless (j : Job) : Bool :=
  match j.ending with
  | .error _ => false
  | .ok p => p.elapsed.isNone

/-- What happens next to a command, and when. An end wins over a limit at the same instant. -/
def dueOf (u : Scheduler.Setup) (w : World) (c : Scheduler.InFlight) : Nat × Due :=
  match w.job? c.stage with
  | none => (c.startedAt, .ends)
  | some j =>
    let ends := endOf c j
    let limit := (u.stage? c.stage).bind (·.timeout u.pipeline.settings)
    let expires := limit.map fun l => c.startedAt + 1000 * l.toNat
    let stops := c.abortedAt.filter fun t => isEndless j || t < ends
    match expires, stops with
    | some e, some t => if e < t then (e, .expires) else (t, .stops)
    | none, some t => (t, .stops)
    | some e, none => if isEndless j || e < ends then (e, .expires) else (ends, .ends)
    | none, none => (ends, .ends)

def next? (u : Scheduler.Setup) (w : World) :
    List Scheduler.InFlight → Option (Scheduler.InFlight × Nat × Due)
  | [] => none
  | c :: rest =>
    let (time, due) := dueOf u w c
    match next? u w rest with
    | none => some (c, time, due)
    | some (d, time', due') =>
      if time ≤ time' then some (c, time, due) else some (d, time', due')

def resultOf (u : Scheduler.Setup) (w : World) (c : Scheduler.InFlight) :
    Due → Except Error CommandOutput
  | .expires =>
    let limit := ((u.stage? c.stage).bind (·.timeout u.pipeline.settings)).getD 0
    .error (.timeout c.request.stage (1000 * limit.toNat))
  | .stops => .ok Shell.Ending.stopped
  | .ends =>
    match w.job? c.stage with
    | none => .ok Shell.Ending.stopped
    | some j => j.ending.map fun p => p.outputOf c.request

/-- Settles, starts the commands, and goes on to what happens next, as far as the fuel goes: one
for every command. -/
def runFrom (u : Scheduler.Setup) : Nat → World → Scheduler.State → Except Error Run × Workspace
  | 0, w, _ => (.error Scheduler.unsettled, w.workspace)
  | fuel + 1, w, s =>
    match Scheduler.settle u s with
    | .error e => (.error e, w.workspace)
    | .ok s =>
      let w := w.start s.inFlight
      match Scheduler.verdict? s, next? u w s.inFlight with
      | some result, _ => (result, w.workspace)
      | none, none => (.error Scheduler.unsettled, w.workspace)
      | none, some (c, time, due) =>
        let s := { s with run := { s.run with clock := max s.run.clock time } }
        let result := resultOf u w c due
        let w := w.finish c.stage (due = .ends)
        match Scheduler.complete u s c.stage result with
        | .error e => (.error e, w.workspace)
        | .ok s => runFrom u fuel w s

structure Options where
  maxParallel : Option Nat := none
  dryRun : Bool := false
  hostWorkers : Nat := 4
  secrets : SecretProvider

/-- Runs a pipeline in a folder, and gives the workspace after it. A definition that is not valid
is refused. -/
def execute (p : Pipeline) (t : Trigger) (runId : String) (o : Options) (w : Workspace)
    (folder : Path) : Except Error Run × Workspace :=
  match p.ensureValid with
  | .error e => (.error e, w)
  | .ok graph =>
    let u : Scheduler.Setup :=
      { pipeline := p, graph, trigger := t, provider := o.secrets
        maxParallel := o.maxParallel, hostWorkers := o.hostWorkers, runId }
    let run := Run.start p graph t o.dryRun
    if o.dryRun then (Scheduler.plan u run, w)
    else runFrom u (p.stages.length + 2) { workspace := w, folder } { run }

end Execution
end Conveyor
