import Conveyor.Command
import Conveyor.Locks
import Conveyor.Run
import Conveyor.Validation

/-!
# Conveyor.Scheduler

Driving a run from the first gate to the last completion.

The scheduler is a state machine. It settles: every stage whose dependencies have ended is
gated, every stage that was admitted is started as far as workers and concurrency groups allow,
until neither changes anything. Then it waits for one event, a finished command or a request to
cancel, applies it, and settles again. It ends when it has settled with no command in flight.

* `Setup`    — what a run is driven with.
* `State`    — the run, the lock table, the commands in flight and the channel that stops them,
               the notices not yet taken.
* `gateAll`, `dispatchAll`, `settle` — settling.
* `complete`, `cancel`               — the events.
* `fail`, `abort`                    — a failed stage, and what fail-fast and cancel do.
* `plan`     — a run in which every dependency is taken to succeed and nothing is started.

Stages are visited in the order of the graph throughout.
-/

namespace Conveyor
namespace Scheduler

/-- What a run is driven with. -/
structure Setup where
  pipeline : Pipeline
  graph : Graph
  trigger : Trigger
  provider : SecretProvider
  /-- The option of the run. -/
  maxParallel : Option Nat
  hostWorkers : Nat
  /-- The identity of the run, as its commands see it. -/
  runId : String

/-- The number of workers: the option of the run, else the setting, else a number of the host;
one at least. -/
def workers (option : Option Nat) (settings : Settings) (host : Nat) : Nat :=
  max 1 ((option <|> settings.maxParallel.map UInt64.toNat).getD host)

namespace Setup

def order (u : Setup) : List Nat := u.graph.order

def stage? (u : Setup) (i : Nat) : Option Stage := u.pipeline.stages[i]?

/-- The number of commands that may be in flight. -/
def workers (u : Setup) : Nat :=
  Scheduler.workers u.maxParallel u.pipeline.settings u.hostWorkers

end Setup

/-- A command that was started and whose result was not applied yet. -/
structure InFlight where
  stage : Nat
  request : CommandRequest
  startedAt : Nat
  deriving DecidableEq, Repr, Inhabited

namespace InFlight

/-- When its abort signal fired. -/
def abortedAt (c : InFlight) : Option Nat := c.request.cancel.firedAt

/-- The command after a channel was fired. -/
def hear (c : InFlight) (channel now : Nat) : InFlight :=
  if c.request.cancel.channel = channel then
    { c with request := { c.request with cancel := { channel, firedAt := some now } } }
  else c

end InFlight

/-- What an observer of the run is told. -/
inductive Notice where
  | runStarted (total : Nat)
  | stageStarted (stage : Nat) (request : CommandRequest)
  | stageFinished (stage : Nat) (outcome : Outcome)
  deriving DecidableEq, Repr, Inhabited

structure State where
  run : Run
  locks : Locks := {}
  inFlight : List InFlight := []
  notices : List Notice := []
  /-- What the commands that are started from now on listen to. -/
  signal : Signal := {}
  deriving DecidableEq, Repr, Inhabited

namespace State

def notify (s : State) (n : Notice) : State := { s with notices := n :: s.notices }

def notifyFinished (s : State) (i : Nat) : State :=
  match s.run.outcome? i with
  | some o => s.notify (.stageFinished i o)
  | none => s

/-- Puts a fresh channel in the place of the one that commands listen to, and fires that one. -/
def fireSignals (s : State) : State := { s with
  signal := { channel := s.signal.channel + 1 }
  inFlight := s.inFlight.map (·.hear s.signal.channel s.run.clock) }

end State

/-! ## Skipping, aborting, failing -/

def skip (s : State) (i : Nat) (reason : SkipReason) : Except Error State :=
  match (s.run.markSkipped i reason).accepted with
  | .error e => .error e
  | .ok run => .ok ({ s with run }.notifyFinished i)

/-- Skips the stages of a list that satisfy a test on their definition and status. -/
def skipWhere (u : Setup) (test : Stage → Status → Bool) (reason : SkipReason) :
    List Nat → State → Except Error State
  | [], s => .ok s
  | i :: rest, s =>
    match u.stage? i, s.run.status? i with
    | some stage, some status =>
      if test stage status then
        match skip s i reason with
        | .error e => .error e
        | .ok s => skipWhere u test reason rest s
      else skipWhere u test reason rest s
    | _, _ => skipWhere u test reason rest s

/-- An abort ends a stage that has not ended, unless it is spared: waiting stages that run
always are, if asked for. -/
def isAborted (spareAlways : Bool) (stage : Stage) (status : Status) : Bool :=
  !status.isTerminal &&
    !(spareAlways && status ≠ .running && stage.onFailure = .always)

/-- Skips every stage that has not ended and stops the commands in flight. Locks are given back
when those commands are done. -/
def abort (u : Setup) (s : State) (reason : SkipReason) (spareAlways : Bool) :
    Except Error State :=
  match skipWhere u (isAborted spareAlways) reason u.order s with
  | .error e => .error e
  | .ok s => .ok s.fireSignals

def fallsWith (group : String) (stage : Stage) (status : Status) : Bool :=
  (status = .pending || status = .queued) && stage.failFastGroup = some group &&
    stage.onFailure ≠ .always

/-- What a failure of a stage that must not fail does to the others. -/
def failFast (u : Setup) (s : State) (stage : Stage) : Except Error State :=
  let grouped : Except Error State :=
    match stage.failFastGroup with
    | none => .ok s
    | some group => skipWhere u (fallsWith group) (.failFast stage.name) u.order s
  match grouped with
  | .error e => .error e
  | .ok s =>
    if u.pipeline.settings.failFast then abort u s (.failFast stage.name) true else .ok s

/-- Records the failure of a stage. A fatal error ends the whole run. -/
def fail (u : Setup) (s : State) (i : Nat) (error : Error) : Except Error State :=
  if error.isFatal then .error error
  else
    match u.stage? i with
    | none => .error (Run.noSuchStage i)
    | some stage =>
      match (s.run.markFailed i error).accepted with
      | .error e => .error e
      | .ok run =>
        let s := { s with run }.notifyFinished i
        if stage.allowFailure then .ok s else failFast u s stage

/-! ## Settling -/

/-- Gates a stage, if it waits and its dependencies have ended. Answers also whether it did. -/
def gateOne (u : Setup) (s : State) (i : Nat) : Except Error (State × Bool) :=
  match s.run.status? i, s.run.dependencies? i, u.stage? i with
  | some .pending, some dependencies, some stage =>
    match Gate.decide u.trigger stage dependencies with
    | .ok .allow =>
      match (s.run.markQueued i).accepted with
      | .error e => .error e
      | .ok run => .ok ({ s with run }, true)
    | .ok (.skip reason) => (skip s i reason).map (·, true)
    | .error e => (fail u s i e).map (·, true)
  | _, _, _ => .ok (s, false)

def gateAll (u : Setup) : List Nat → State → Except Error (State × Bool)
  | [], s => .ok (s, false)
  | i :: rest, s =>
    match gateOne u s i with
    | .error e => .error e
    | .ok (s, progressed) => (gateAll u rest s).map fun (s, more) => (s, progressed || more)

/-- The environment of a command. Later entries win: the pipeline, the stage, the run, the
inputs. -/
def environment (u : Setup) (stage : Stage) (inputs : Dict String) : Dict String :=
  ((((((u.pipeline.env.union stage.env).insert "PIPEFLOW_RUN_ID" u.runId).insert
    "PIPEFLOW_STAGE" stage.name).insert
    "PIPEFLOW_EVENT" u.trigger.event.name).insert
    "PIPEFLOW_REF" u.trigger.ref).insert
    "PIPEFLOW_BRANCH" u.trigger.branch).union inputs

/-- The request for the command of a stage: its inputs are resolved, then its secrets
acquired. -/
def prepare (u : Setup) (s : State) (stage : Stage) : Except Error CommandRequest :=
  match s.run.resolveInputs stage with
  | .error e => .error e
  | .ok inputs =>
    match Lease.acquire u.provider stage.name stage.secrets with
    | .error e => .error e
    | .ok secrets =>
      .ok { stage := stage.name
            command := stage.run
            shell := stage.effectiveShell u.pipeline.settings
            env := environment u stage inputs
            secrets
            graceSecs := u.pipeline.settings.cancelGraceSecs
            cancel := s.signal }

def spawn (s : State) (i : Nat) (request : CommandRequest) : Except Error State :=
  match (s.run.markRunning i).accepted with
  | .error e => .error e
  | .ok run =>
    let s : State := { s with
      run
      inFlight := s.inFlight ++ [{ stage := i, request, startedAt := s.run.clock }] }
    .ok (s.notify (.stageStarted i request))

/-- The lock table with the concurrency group of a stage taken, if it can be. -/
def lock? (locks : Locks) (i : Nat) (stage : Stage) : Option Locks :=
  match stage.concurrencyGroup with
  | none => some locks
  | some group => locks.acquire? group i

/-- Starts a stage, if it is queued and its concurrency group is free. A stage that cannot be
prepared fails and gives its group back. Answers also whether anything happened. -/
def dispatchOne (u : Setup) (s : State) (i : Nat) : Except Error (State × Bool) :=
  match s.run.status? i, u.stage? i with
  | some .queued, some stage =>
    match lock? s.locks i stage with
    | none => .ok (s, false)
    | some locks =>
      match prepare u s stage with
      | .ok request => (spawn { s with locks } i request).map (·, true)
      | .error e => (fail u { s with locks := locks.release i } i e).map (·, true)
  | _, _ => .ok (s, false)

def dispatchAll (u : Setup) : List Nat → State → Except Error (State × Bool)
  | [], s => .ok (s, false)
  | i :: rest, s =>
    if u.workers ≤ s.inFlight.length then .ok (s, false)
    else
      match dispatchOne u s i with
      | .error e => .error e
      | .ok (s, progressed) =>
        (dispatchAll u rest s).map fun (s, more) => (s, progressed || more)

def settleOnce (u : Setup) (s : State) : Except Error (State × Bool) :=
  match gateAll u u.order s with
  | .error e => .error e
  | .ok (s, gated) => (dispatchAll u u.order s).map fun (s, started) => (s, gated || started)

def unsettled : Error := .invariantViolation "scheduling does not settle"

/-- Rounds until one changes nothing, as far as the fuel goes. -/
def settleFrom (u : Setup) : Nat → State → Except Error State
  | 0, _ => .error unsettled
  | fuel + 1, s =>
    match settleOnce u s with
    | .error e => .error e
    | .ok (s, true) => settleFrom u fuel s
    | .ok (s, false) => .ok s

/-- Gates and starts whatever can be. Every round that changes something moves a stage at least
one of its three steps forward, so there are no more than three rounds a stage. -/
def settle (u : Setup) (s : State) : Except Error State :=
  settleFrom u (3 * u.pipeline.stages.length + 1) s

/-! ## Events -/

/-- Applies the result of a command. The result of a stage that was ended in the meantime is
dropped. -/
def complete (u : Setup) (s : State) (i : Nat) (result : Except Error CommandOutput) :
    Except Error State :=
  let s := { s with
    locks := s.locks.release i
    inFlight := s.inFlight.filter fun c => c.stage ≠ i }
  match s.run.status? i, u.stage? i with
  | some .running, some stage =>
    match result with
    | .error e => fail u s i e
    | .ok out =>
      let s := { s with run := s.run.recordLogs i out.stdout out.stderr out.exitCode }
      if out.success then
        match (s.run.markSucceeded i (Marker.declared stage out.outputs)).accepted with
        | .error e => .error e
        | .ok run => .ok ({ s with run }.notifyFinished i)
      else if out.cancelled then skip s i .cancelled
      else
        fail u s i (.commandFailure stage.name (out.exitCode.getD (-1)) (Text.tail 20 out.stderr))
  | _, _ => .ok s

/-- Applies a request to cancel. Only the first one counts. -/
def cancel (u : Setup) (s : State) : Except Error State :=
  if s.run.cancelled then .ok s
  else abort u { s with run := { s.run with cancelled := true } } .cancelled false

/-- The end of a settled state: none while commands are in flight. -/
def verdict? (s : State) : Option (Except Error Run) :=
  if s.inFlight.isEmpty then
    if s.run.isComplete then some (.ok s.run)
    else some (.error (.invariantViolation "no stage can make progress"))
  else none

/-! ## Plans -/

/-- Records what the gate of a stage says when its dependencies are taken to succeed. -/
def planOne (u : Setup) (r : Run) (i : Nat) : Except Error Run :=
  match u.stage? i with
  | none => .error (Run.noSuchStage i)
  | some stage =>
    let dependencies := (u.graph.predecessorsOf i).map fun d =>
      (u.graph.name d, DependencyOutcome.succeeded)
    match Gate.decide u.trigger stage dependencies with
    | .ok .allow => (r.markQueued i).accepted
    | .ok (.skip reason) => (r.markSkipped i reason).accepted
    | .error e => (r.markFailed i e).accepted

def planFrom (u : Setup) : List Nat → Run → Except Error Run
  | [], r => .ok r
  | i :: rest, r =>
    match planOne u r i with
    | .error e => .error e
    | .ok r => planFrom u rest r

/-- What a run would do, without starting anything. -/
def plan (u : Setup) (r : Run) : Except Error Run := planFrom u u.order r

end Scheduler
end Conveyor
