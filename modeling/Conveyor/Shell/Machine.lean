import Conveyor.Dict
import Conveyor.Shell.Script
import Conveyor.Workspace

/-!
# Conveyor.Shell.Machine

The state in which the commands of a script run.

* `Machine` — the workspace, the variables, where output goes, the time that has passed.
* `Signal`  — what ends commands before their end.
* `Exec`    — a computation on a machine. After a signal the machine is as it was left.
* `say`, `complain`, `fault` — output.

A descriptor leads to a buffer, to a file, or nowhere. Buffer 0 takes the standard output of the
whole script and buffer 1 its errors; the others belong to commands whose output is read.
-/

namespace Conveyor
namespace Shell

/-- The kind of the program, on which the wording of its messages and some details depend. -/
inductive Manner where
  | posix
  | bash
  | program
  deriving DecidableEq, Repr, Inhabited

inductive Target where
  | buffer (n : Nat)
  | file (p : Path)
  deriving DecidableEq, Repr, Inhabited

/-- Output of a command in the background that the script has not come to yet. -/
structure Late where
  time : Nat
  target : Target
  text : Bytes
  deriving DecidableEq, Repr, Inhabited

structure Machine where
  workspace : Workspace := {}
  folder : Path := []
  bindings : Dict Bytes := ∅
  exported : List String := []
  readOnly : List String := []
  functions : List (Bytes × Command) := []
  manner : Manner := .posix
  /-- The name and the arguments of the script. -/
  name : Bytes := []
  arguments : List Bytes := []
  status : Nat := 0
  line : Nat := 1
  /-- What is left of the standard input. -/
  input : Bytes := []
  targets : List (Nat × Target) := [(1, .buffer 0), (2, .buffer 1)]
  /-- The buffers, each in reverse. -/
  buffers : List Bytes := [[], []]
  elapsed : Nat := 0
  /-- When the last command in the background ends. -/
  background : Nat := 0
  late : List Late := []
  exitOnError : Bool := false
  demandSet : Bool := false
  /-- A failure of any part of a pipeline is one of the whole. -/
  wholePipes : Bool := false
  /-- A failure here is looked at by a condition. -/
  guarded : Bool := false
  loops : Nat := 0
  /-- The status of the last command whose output became part of a word. -/
  substituted : Option Nat := none
  /-- The scripts that run instead when a signal arrives; 0 is the exit. -/
  traps : List (Nat × Bytes) := []
  deriving Inhabited

inductive Signal where
  | exit (status : Nat)
  | killed (number : Nat)
  /-- Leaves loops, that many. -/
  | leave (loops : Nat)
  /-- Goes on with the next round of a loop. -/
  | again (loops : Nat)
  | giveBack (status : Nat)
  /-- The fuel does not suffice. -/
  | endless
  deriving DecidableEq, Repr

abbrev Exec := ExceptT Signal (StateM Machine)

namespace Machine

def written (m : Machine) (n : Nat) : Bytes := (m.buffers.getD n []).reverse

def put (m : Machine) (t : Target) (text : Bytes) : Machine :=
  match t with
  | .buffer n => { m with buffers := m.buffers.modify n (text.reverse ++ ·) }
  | .file p =>
    match m.workspace.find? p with
    | some (.file old) => { m with workspace := m.workspace.put p (.file (old ++ text)) }
    | _ => m

/-- Writes what commands in the background have written before an instant. -/
def catchUp (m : Machine) (time : Nat) : Machine :=
  let (due, late) := m.late.partition fun l => l.time < time
  due.foldl (fun m l => m.put l.target l.text) { m with late }

def write (m : Machine) (descriptor : Nat) (text : Bytes) : Machine :=
  match m.targets.lookup descriptor with
  | some t => (m.catchUp m.elapsed).put t text
  | none => m

def setTarget (m : Machine) (descriptor : Nat) (t : Option Target) : Machine :=
  let others := m.targets.filter fun e => e.1 ≠ descriptor
  { m with targets := match t with
      | some t => (descriptor, t) :: others
      | none => others }

def set (m : Machine) (x : String) (value : Bytes) : Machine :=
  { m with bindings := m.bindings.insert x value }

def environment (m : Machine) : List (String × Bytes) :=
  m.bindings.entries.filter fun e => m.exported.contains e.1

end Machine

/-! ## Output -/

def say (text : Bytes) : Exec Unit := modify fun m => m.write 1 text

def sayLine (text : String) : Exec Unit := say (Bytes.ofString (text ++ "\n"))

def complain (text : String) : Exec Unit :=
  modify fun m => m.write 2 (Bytes.ofString (text ++ "\n"))

/-- A line on the error output with the name of the script and the number of its line. -/
def fault (text : String) : Exec Unit := do
  let m ← get
  let name := m.name.toText
  match m.manner with
  | .posix => complain (name ++ ": " ++ toString m.line ++ ": " ++ text)
  | .bash => complain (name ++ ": line " ++ toString m.line ++ ": " ++ text)
  | .program => complain text

/-- A message in the words of the kind of shell. -/
def faultEither (posix bash : String) : Exec Unit := do
  fault (if (← get).manner = .bash then bash else posix)

def setStatus (n : Nat) : Exec Unit := modify fun m => { m with status := n }

def die {α : Type} (text : String) (status : Nat) : Exec α := do
  fault text
  throw (.exit status)

def dieEither {α : Type} (posix bash : String) : Exec α := do
  if (← get).manner = .bash then die bash 1 else die posix 2

/-! ## Variables -/

/-- Sets a variable, unless it must stay as it is. -/
def assign (x : String) (value : Bytes) : Exec Unit := do
  let m ← get
  if m.readOnly.contains x then
    dieEither (x ++ ": is read only") (x ++ ": readonly variable")
  else set (m.set x value)

/-! ## Frames -/

/-- Runs a computation and gives its signal as a value. -/
def attempt {α : Type} (x : Exec α) : Exec (Except Signal α) := ExceptT.mk (Except.ok <$> x.run)

/-- Runs a computation with a part of the machine put back after it, also after a signal. -/
def withRestored {α : Type} (restore : Machine → Machine → Machine) (x : Exec α) : Exec α := do
  let before ← get
  let result ← attempt x
  modify (restore before)
  match result with
  | .ok a => return a
  | .error s => throw s

/-- Runs a computation with a descriptor that leads to a buffer of its own, and gives what was
written there. -/
def withBuffer {α : Type} (descriptor : Nat) (x : Exec α) : Exec (α × Bytes) := do
  let before ← get
  let n := before.buffers.length
  set { (before.setTarget descriptor (some (.buffer n))) with buffers := before.buffers ++ [[]] }
  let result ← attempt x
  modify fun m => m.catchUp (m.background + 1)
  let text := (← get).written n
  modify fun m => { m with buffers := m.buffers.take n, targets := before.targets }
  match result with
  | .ok a => return (a, text)
  | .error s => throw s

/-- Runs a computation and gives what it wrote to the standard output. -/
def withOutput {α : Type} (x : Exec α) : Exec (α × Bytes) := withBuffer 1 x

/-- Runs a computation and gives what it wrote to the error output. -/
def withErrors {α : Type} (x : Exec α) : Exec (α × Bytes) := withBuffer 2 x

end Shell
end Conveyor
