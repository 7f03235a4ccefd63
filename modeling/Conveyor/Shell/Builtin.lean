import Conveyor.Shell.Utility

/-!
# Conveyor.Shell.Builtin

The utilities that only a shell has.

* `Builtin.table`   — the utilities.
* `Builtin.special` — those whose assignments stay.
* `Builtin.isProgram` — what a system can start.
-/

namespace Conveyor
namespace Shell
namespace Builtin

open Utility

def cd : Utility := fun words => do
  let m ← get
  let back := words.head? = some ['-']
  let place := if back then (m.bindings.get? "OLDPWD").getD []
    else (words.head? <|> m.bindings.get? "HOME").getD ['.']
  let refuse (reason : String) : Exec Nat := do
    faultEither ("cd: can't cd to " ++ place.toText) ("cd: " ++ place.toText ++ ": " ++ reason)
    return if m.manner = .bash then 1 else 2
  match m.workspace.walk m.folder place.toText with
  | .error e => refuse e.reason
  | .ok p =>
    match m.workspace.find? p with
    | some .folder =>
      let left := Bytes.ofString (Workspace.pathText m.folder)
      set ((({ m with folder := p }).set "OLDPWD" left).set "PWD"
        (Bytes.ofString (Workspace.pathText p)))
      if back then sayLine (Workspace.pathText p)
      return 0
    | some _ => refuse Fault.notFolder.reason
    | none => refuse Fault.notFound.reason

/-- The exit status that a word names, modulo 256. -/
def statusOf (utility : String) (word : Option Bytes) : Exec Nat := do
  match word with
  | none => return (← get).status
  | some w =>
    let negative := w.head? = some '-' && (← get).manner = .bash
    match Arithmetic.digitsIn? 10 (if negative then w.drop 1 else w) with
    | some n => return if negative then (256 - n % 256) % 256 else n % 256
    | none =>
      faultEither (utility ++ ": Illegal number: " ++ w.toText)
        (utility ++ ": " ++ w.toText ++ ": numeric argument required")
      throw (.exit 2)

def binding (w : Bytes) : String × Option Bytes :=
  let name := w.takeWhile (· ≠ '=')
  (Bytes.toText name, if name.length < w.length then some (w.drop (name.length + 1)) else none)

def declare (mark : Machine → String → Machine) : Utility := fun words => do
  words.forM fun w => do
    let (x, value) := binding w
    match value with
    | some v => assign x v
    | none => pure ()
    modify fun m => mark m x
  return 0

def exportVariables : Utility :=
  declare fun m x => if m.exported.contains x then m else { m with exported := x :: m.exported }

def unset : Utility := fun words => do
  words.forM fun w => modify fun m => { m with
    bindings := m.bindings.erase w.toText
    functions := m.functions.filter fun f => f.1 ≠ w }
  return 0

def switch (on : Bool) (letters : Bytes) (m : Machine) : Machine :=
  letters.foldl (fun m c =>
    match c with
    | 'e' => { m with exitOnError := on }
    | 'u' => { m with demandSet := on }
    | _ => m) m

def setOptions : Nat → Utility
  | 0, _ => return 0
  | fuel + 1, words => do
    match words with
    | [] => return 0
    | w :: rest =>
      match w with
      | ['-', '-'] =>
        modify fun m => { m with arguments := rest }
        return 0
      | ['-', 'o'] | ['+', 'o'] =>
        let on : Bool := w.head? = some '-'
        match (rest.headD []).toText with
        | "errexit" => modify (switch on ['e'])
        | "nounset" => modify (switch on ['u'])
        | name =>
          if (← get).manner ≠ .bash then die ("set: Illegal option " ++ w.toText ++ " " ++ name) 2
          if name = "pipefail" then modify fun m => { m with wholePipes := on }
        setOptions fuel (rest.drop 1)
      | '-' :: letters =>
        modify (switch true letters)
        setOptions fuel (if letters.contains 'o' then ['-', 'o'] :: rest else rest)
      | '+' :: letters =>
        modify (switch false letters)
        setOptions fuel rest
      | _ =>
        modify fun m => { m with arguments := words }
        return 0

def shift : Utility := fun words => do
  let n ← match words with
    | [] => pure 1
    | w :: _ => statusOf "shift" (some w)
  let m ← get
  if m.arguments.length < n then
    if m.manner = .bash then return 1 else die "shift: can't shift that many" 2
  set { m with arguments := m.arguments.drop n }
  return 0

def readLine : Exec (Bytes × Bool) := do
  let m ← get
  let line := m.input.takeWhile (· ≠ '\n')
  set { m with input := m.input.drop (line.length + 1) }
  return (line, line.length < m.input.length)

/-- Blanks at the end of a text are dropped. -/
def dropBlanksEnd (s : Bytes) : Bytes :=
  (s.reverse.dropWhile fun c => c = ' ' || c = '\t').reverse

/-- Gives the words of a line to variables. The last one takes what is left. -/
def assignWords : List String → Bytes → List (String × Bytes)
  | [], _ => []
  | [x], line => [(x, dropBlanksEnd (line.dropWhile fun c => c = ' ' || c = '\t'))]
  | x :: rest, line =>
    let line := line.dropWhile fun c => c = ' ' || c = '\t'
    let word := line.takeWhile fun c => !(c = ' ' || c = '\t')
    (x, word) :: assignWords rest (line.drop word.length)

def readUtility : Utility := fun words => do
  let names := (words.filter fun w => w.head? ≠ some '-').map Bytes.toText
  let (line, ended) ← readLine
  (assignWords names line).forM fun (x, v) => assign x v
  return if ended then 0 else 1

def loopsOf (words : List Bytes) : Nat := (words.head?.bind (Arithmetic.digitsIn? 10)).getD 1

def inLoop (s : Signal) : Exec Nat := do
  if (← get).loops = 0 then return 0 else throw s

def trap : Utility := fun words => do
  match words with
  | action :: names =>
    names.forM fun n => do
      match signal? n with
      | some k => modify fun m =>
          let others := m.traps.filter fun t => t.1 ≠ k
          { m with traps := if action = ['-'] then others else (k, action) :: others }
      | none => fault ("trap: " ++ n.toText ++ ": bad trap")
    return 0
  | [] => return 0

/-- The utilities that only a shell has. -/
def table : List (String × Utility) :=
  [(":", fun _ => return 0), ("cd", cd), ("chdir", cd),
    ("exit", fun words => do throw (.exit (← statusOf "exit" words.head?))),
    ("return", fun words => do throw (.giveBack (← statusOf "return" words.head?))),
    ("break", fun words => inLoop (.leave (loopsOf words))),
    ("continue", fun words => inLoop (.again (loopsOf words))),
    ("export", exportVariables),
    ("readonly", declare fun m x => { m with readOnly := x :: m.readOnly }),
    ("local", declare fun m _ => m),
    ("unset", unset), ("set", fun words => setOptions (2 * words.length + 1) words),
    ("shift", shift),
    ("read", readUtility), ("trap", trap), ("umask", fun _ => return 0),
    ("wait", fun _ => do
      modify fun m =>
        { m.catchUp (m.background + 1) with elapsed := max m.elapsed m.background }
      return 0)]

/-- The utilities whose assignments stay, and whose failure ends a script. -/
def special : List String :=
  [":", "exit", "return", "break", "continue", "export", "readonly", "set", "shift", "trap",
    "unset", "eval", "exec", "."]

/-! ## Programs -/

/-- The programs that run scripts, with their manner. -/
def shells : List (String × Manner) := [("sh", .posix), ("dash", .posix), ("bash", .bash)]

/-- The folders in which programs are looked up. -/
def programFolders : List Bytes := ["/bin/", "/usr/bin/"].map String.toList

/-- The name of a program that is written with or without its folder. -/
def programName (written : Bytes) : Bytes :=
  match programFolders.find? fun f => f.isPrefixOf written with
  | some f => written.drop f.length
  | none => written

def isProgram (written : Bytes) : Bool :=
  let name := (programName written).toText
  (programs.lookup name).isSome || (shells.lookup name).isSome || name = "env"

/-- The programs that a shell does not start but does itself. -/
def own : List String := ["true", "false", "echo", "printf", "test", "[", "pwd", "kill"]

/-- What a shell says when it is asked where a utility is. -/
def placeOf (name : Bytes) : Bytes :=
  if own.contains name.toText || (table.lookup name.toText).isSome || name.contains '/' then name
  else "/usr/bin/".toList ++ name

end Builtin
end Shell
end Conveyor
