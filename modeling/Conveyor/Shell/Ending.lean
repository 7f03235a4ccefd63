import Conveyor.Command
import Conveyor.Shell.Eval

/-!
# Conveyor.Shell.Ending

How programs end, and with them the commands of stages.

* `Ending`          — what a program leaves when it has ended.
* `Ending.launch`   — runs a program in a folder of a workspace, or says why it cannot be started.
* `Ending.execute`  — the same for the command of a request.
* `Ending.outputOf` — what is collected of the output, with the secrets hidden.
-/

namespace Conveyor
namespace Shell

structure Ending where
  /-- Absent when a signal killed it. -/
  status : Option Nat
  stdout : Bytes
  stderr : Bytes
  workspace : Workspace
  /-- The milliseconds it took; absent when it would never end. -/
  elapsed : Option Nat
  deriving Inhabited

namespace Ending

/-- The depth to which commands nest, rounds of loops included. -/
def fuel : Nat := 100000

def inherited (folder : Path) : List (String × Bytes) :=
  [("PATH", "/usr/local/sbin:/usr/local/bin:/usr/sbin:/usr/bin:/sbin:/bin".toList),
    ("PWD", Bytes.ofString (Workspace.pathText folder))]

def ofRun (result : Except Signal Nat × Machine) : Ending :=
  let m := result.2.catchUp (result.2.background + 1)
  let ending : Ending :=
    { status := none, stdout := m.written 0, stderr := m.written 1, workspace := m.workspace
      elapsed := some (max m.elapsed m.background) }
  match result.1 with
  | .ok n | .error (.exit n) | .error (.giveBack n) => { ending with status := some n }
  | .error .endless => { ending with elapsed := none }
  | .error _ => ending

def launch (w : Workspace) (folder : Path) (environment : List (String × String))
    (program : String) (arguments : List String) : Except Fault Ending :=
  let written := Bytes.ofString program
  if Builtin.isProgram written then
    let m := setEnvironment
      (inherited folder ++ environment.map fun (x, v) => (x, Bytes.ofString v))
      { workspace := w, folder, name := written, manner := .program }
    let words := arguments.map Bytes.ofString
    let run :=
      match Builtin.shells.lookup (Builtin.programName written).toText with
      | some manner => runShell fuel manner written words
      | none => start fuel true written words
    .ok (ofRun (run.run.run m))
  else if written.contains '/' then
    match w.walk folder program with
    | .error f => .error f
    | .ok p => .error (if (w.find? p).isSome then .denied else .notFound)
  else .error .notFound

def isFound (program : String) : Bool := Builtin.isProgram (Bytes.ofString program)

/-! ## Commands of stages -/

def program? (r : CommandRequest) : Option (String × List String) :=
  match r.command with
  | .script s => some (r.shell, ["-c", s])
  | .argv [] => none
  | .argv (program :: arguments) => some (program, arguments)

/-- The environment of a request. Secrets win. -/
def environmentOf (r : CommandRequest) : List (String × String) :=
  r.env.entries ++ r.secrets.secrets

/-- What is collected of the output, with the secrets hidden. Markers are looked for in what is
left. -/
def outputOf (p : Ending) (r : CommandRequest) : CommandOutput :=
  let stdout := r.secrets.mask (Bytes.collect p.stdout)
  { exitCode := p.status.map Int.ofNat
    stdout
    stderr := r.secrets.mask (Bytes.collect p.stderr)
    outputs := Marker.collect stdout }

def execute (w : Workspace) (folder : Path) (r : CommandRequest) : Except Error Ending :=
  match program? r with
  | none => .error (.invalidPipeline ("Stage '" ++ r.stage ++ "': command is empty") none)
  | some (program, arguments) =>
    match launch w folder (environmentOf r) program arguments with
    | .error f => .error (Error.ofSpawn r.stage program f.message)
    | .ok p => .ok p

/-- The output of a command that was told to stop before it did anything. -/
def stopped : CommandOutput := { cancelled := true }

end Ending
end Shell
end Conveyor
