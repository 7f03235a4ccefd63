import Conveyor.Scheduler

/-!
# Conveyor.Rehearsal

Runs in virtual time, against commands that are only described.

Time is in milliseconds from the start of the run; a tick is a second. Nothing takes time but
commands. The command of a stage ends after its ticks, counted from the last full second and
with an offset that depends on the stage, so that no two commands end at one instant. Once its
abort signal has fired it lingers in the same way and ends as cancelled. A command that outlasts
the limit of its stage is dropped.

* `Script`     — what a command does.
* `Entry`      — the log: what the observer is told and how commands end.
* `rehearse`   — the whole run.
-/

namespace Conveyor
namespace Rehearsal

structure Script where
  ticks : Nat := 1
  /-- Absent when a signal kills it. -/
  exit : Option Int := some 0
  stdout : String := ""
  stderr : String := ""
  /-- The ticks it needs to stop. -/
  linger : Nat := 1
  /-- An error instead of an output. -/
  error : Option Error := none
  deriving Repr, Inhabited

inductive Event where
  | notice (n : Scheduler.Notice)
  | commandEnded (stage : Nat) (cancelled : Bool)
  | commandDropped (stage : Nat)
  deriving Repr

structure Entry where
  time : Nat
  event : Event
  deriving Repr

structure Options where
  maxParallel : Option Nat := none
  dryRun : Bool := false
  secrets : Dict String := ∅
  /-- The tick after which the run is cancelled; zero is before its start. -/
  cancelAt : Option Nat := none
  scripts : Dict Script := ∅

/-- How a rehearsal ended: the log, the instant, and the run or its error. -/
structure Outcome where
  log : List Entry
  time : Nat
  result : Except Error Run

/-! ## Texts -/

def substitute (text : String) (name value : String) : String :=
  String.ofList
    (Text.replaceAll ("$\x7b" ++ name ++ "\x7d").toList value.toList text.toList)

/-- What a command prints: the variables of its environment, then its secrets, are filled in,
and the secrets are hidden. -/
def printed (request : CommandRequest) (text : String) : String :=
  let fill := fun text (entry : String × String) => substitute text entry.1 entry.2
  request.secrets.mask (request.secrets.secrets.foldl fill (request.env.entries.foldl fill text))

/-- The result of a command that has ended. -/
def resultOf (script : Script) (request : CommandRequest) (cancelled : Bool) :
    Except Error CommandOutput :=
  match script.error with
  | some e => .error e
  | none =>
    let stdout := printed request script.stdout
    .ok { exitCode := script.exit
          stdout
          stderr := printed request script.stderr
          outputs := if script.exit = some 0 then Marker.collect stdout else ∅
          cancelled }

/-! ## Time -/

/-- The instant some ticks after another one, at the place of a stage in its second. -/
def after (time ticks stage : Nat) : Nat := (time / 1000 + max ticks 1) * 1000 + stage + 2

inductive Due where
  | ends (cancelled : Bool)
  | expires
  deriving DecidableEq, Repr

/-- When a command ends by itself or after its abort signal. -/
def endOf (script : Script) (c : Scheduler.InFlight) : Nat :=
  match c.abortedAt with
  | none => after c.startedAt script.ticks c.stage
  | some time => after time script.linger c.stage

/-- What happens next to a command, and when. Its end wins over the limit at the same instant. -/
def dueOf (u : Scheduler.Setup) (scripts : Dict Script) (c : Scheduler.InFlight) : Nat × Due :=
  let script := (scripts.get? c.request.stage).getD {}
  let ends := endOf script c
  match (u.stage? c.stage).bind (·.timeout u.pipeline.settings) with
  | none => (ends, .ends c.abortedAt.isSome)
  | some limit =>
    let expires := c.startedAt + 1000 * limit.toNat
    if expires < ends then (expires, .expires) else (ends, .ends c.abortedAt.isSome)

def next? (u : Scheduler.Setup) (scripts : Dict Script) :
    List Scheduler.InFlight → Option (Scheduler.InFlight × Nat × Due)
  | [] => none
  | c :: rest =>
    let (time, due) := dueOf u scripts c
    match next? u scripts rest with
    | none => some (c, time, due)
    | some (d, time', due') =>
      if time ≤ time' then some (c, time, due) else some (d, time', due')

/-! ## The run -/

def takeNotices (log : List Entry) (s : Scheduler.State) : List Entry × Scheduler.State :=
  (log ++ s.notices.reverse.map fun n => ⟨s.run.clock, .notice n⟩, { s with notices := [] })

/-- What a waiting run is woken by. -/
inductive Wake where
  | cancel
  | command (c : Scheduler.InFlight) (due : Due)

/-- What wakes a run first, and when. -/
def wake? (u : Scheduler.Setup) (o : Options) (s : Scheduler.State) : Option (Nat × Wake) :=
  match next? u o.scripts s.inFlight with
  | none => none
  | some (c, time, due) =>
    match o.cancelAt with
    | none => some (time, .command c due)
    | some n =>
      if s.run.cancelled || time < 1000 * n + 1 then some (time, .command c due)
      else some (1000 * n + 1, .cancel)

def Wake.apply (u : Scheduler.Setup) (scripts : Dict Script) (s : Scheduler.State) :
    Wake → List Event × Except Error Scheduler.State
  | .cancel => ([], Scheduler.cancel u s)
  | .command c (.ends cancelled) =>
    let script := (scripts.get? c.request.stage).getD {}
    ([.commandEnded c.stage cancelled],
      Scheduler.complete u s c.stage (resultOf script c.request cancelled))
  | .command c .expires =>
    let limit := ((u.stage? c.stage).bind (·.timeout u.pipeline.settings)).getD 0
    ([.commandDropped c.stage],
      Scheduler.complete u s c.stage (.error (.timeout c.request.stage (1000 * limit.toNat))))

/-- Settles, then goes on to what wakes the run next, as far as the fuel goes: one for every
command and one for the cancel. -/
def runFrom (u : Scheduler.Setup) (o : Options) :
    Nat → List Entry → Scheduler.State → Outcome
  | 0, log, s => ⟨log, s.run.clock, .error Scheduler.unsettled⟩
  | fuel + 1, log, s =>
    match Scheduler.settle u s with
    | .error e => ⟨log, s.run.clock, .error e⟩
    | .ok s =>
      let (log, s) := takeNotices log s
      match Scheduler.verdict? s, wake? u o s with
      | some result, _ => ⟨log, s.run.clock, result⟩
      | none, none => ⟨log, s.run.clock, .error Scheduler.unsettled⟩
      | none, some (time, wake) =>
        let (events, next) := wake.apply u o.scripts { s with run := { s.run with clock := time } }
        let log := log ++ events.map fun event => ⟨time, event⟩
        match next with
        | .error e => ⟨log, time, .error e⟩
        | .ok s =>
          let (log, s) := takeNotices log s
          runFrom u o fuel log s

def hostWorkers : Nat := 4

/-- Rehearses a run. A definition that is not valid is refused before anything is logged. -/
def rehearse (p : Pipeline) (t : Trigger) (runId : String) (o : Options) : Outcome :=
  match p.ensureValid with
  | .error e => ⟨[], 0, .error e⟩
  | .ok graph =>
    let u : Scheduler.Setup :=
      { pipeline := p, graph, trigger := t, provider := o.secrets.get?
        maxParallel := o.maxParallel, hostWorkers, runId }
    let run := Run.start p graph t o.dryRun
    let log : List Entry := [⟨0, .notice (.runStarted p.stages.length)⟩]
    if o.dryRun then ⟨log, 0, Scheduler.plan u run⟩
    else
      let s : Scheduler.State := { run }
      match (if o.cancelAt = some 0 then Scheduler.cancel u s else .ok s) with
      | .error e => ⟨log, 0, .error e⟩
      | .ok s =>
        let (log, s) := takeNotices log s
        runFrom u o (p.stages.length + 2) log s

end Rehearsal
end Conveyor
