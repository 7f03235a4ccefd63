import Conveyor.Shell.Builtin
import Conveyor.Shell.Field
import Conveyor.Shell.Reader

/-!
# Conveyor.Shell.Eval

Running the commands of a script.

* `expand`    — a word becomes atoms, and `fields` makes fields of words.
* `run`       — one command.
* `runScript` — the lines of a script, each read when those before it have run.
* `start`     — a program with its arguments, in a process of its own.

All recurse on a fuel. When it does not suffice, the script counts as one that never ends.
-/

namespace Conveyor
namespace Shell

/-! ## Parameters -/

def parameter? (m : Machine) (name : Bytes) : Option Bytes :=
  match name with
  | ['?'] => some (Nat.toDigits 10 m.status)
  | ['#'] => some (Nat.toDigits 10 m.arguments.length)
  | ['$'] => some Utility.ownProcess
  | ['0'] => some m.name
  | ['@'] | ['*'] => if m.arguments.isEmpty then none else some ([' '].intercalate m.arguments)
  | ['-'] => some []
  | _ =>
    match Arithmetic.digitsIn? 10 name with
    | some n => m.arguments[n - 1]?
    | none => m.bindings.get? (Bytes.toText name)

/-- The characters at which fields are split. -/
def separators (m : Machine) : Bytes := (m.bindings.get? "IFS").getD " \t\n".toList

/-- All arguments: as one text, or each in a field of its own. -/
def argumentAtoms (m : Machine) (name : Bytes) (quoted : Bool) : List Atom :=
  if name = ['*'] ∧ quoted then
    Atom.expanded (((separators m).take 1).intercalate m.arguments) true
  else
    ([Atom.cut].intercalate (m.arguments.map fun a => Atom.expanded a quoted))

/-- Ends the script because a parameter has no value. -/
def refuseUnset {α : Type} (name : Bytes) (posix bash : String) : Exec α := do
  let text := name.toText ++ ": "
  if (← get).manner = .bash then die (text ++ bash) 127 else die (text ++ posix) 2

/-! ## Processes -/

/-- What stays of the work of a subshell: what it wrote, what it read, and the time it took. -/
def keepWork (before after : Machine) : Machine :=
  { before with
    workspace := after.workspace, buffers := after.buffers, elapsed := after.elapsed
    background := after.background, late := after.late, input := after.input
    status := after.status }

/-- Runs a computation that cannot change the variables, the folder and the options. Its exit is
the end of it alone. -/
def subshell (x : Exec Unit) : Exec Unit :=
  withRestored keepWork do
    modify fun m => { m with traps := [], loops := 0 }
    match ← attempt x with
    | .ok () => return
    | .error (.exit n) | .error (.giveBack n) => setStatus n
    | .error (.leave _) | .error (.again _) => return
    | .error s => throw s

def process (prepare : Machine → Machine) (x : Exec Nat) : Exec Nat := do
  let result ← attempt <| withRestored keepWork do
    modify fun m => prepare { m with
      bindings := m.bindings.filterKeys m.exported.contains
      readOnly := [], functions := [], traps := [], loops := 0, exitOnError := false
      demandSet := false, wholePipes := false, guarded := false, status := 0, line := 1 }
    x
  match result with
  | .ok n => return n
  | .error (.exit n) | .error (.giveBack n) => return n
  | .error (.killed n) =>
    match n with
    | 9 => complain "Killed"
    | 15 => complain "Terminated"
    | 1 => complain "Hangup"
    | 6 => complain "Aborted"
    | _ => pure ()
    return 128 + n
  | .error s => throw s

def setEnvironment (entries : List (String × Bytes)) (m : Machine) : Machine :=
  entries.foldl (fun m (x, v) =>
    let m := m.set x v
    if m.exported.contains x then m else { m with exported := x :: m.exported }) m

def checkStatus : Exec Unit := do
  let m ← get
  if m.exitOnError && !m.guarded && m.status ≠ 0 then throw (.exit m.status)

/-- Runs a condition: its failure does not end the script. -/
def guarding (x : Exec Unit) : Exec Unit :=
  withRestored (fun before after => { after with guarded := before.guarded }) do
    modify fun m => { m with guarded := true }
    x

/-- Runs a computation with the targets, and perhaps the input, put back after it. -/
def withTargets {α : Type} (input : Bool) (x : Exec α) : Exec α :=
  withRestored (fun before after => { after with
    targets := before.targets
    input := if input then before.input else after.input }) x

def isInput : Redirect → Bool
  | .mk _ .read _ | .mk _ .here _ => true
  | _ => false

def notFound (name : Bytes) : Exec Nat := do
  let m ← get
  let text := name.toText
  match if name.contains '/' then m.workspace.entryAt? m.folder text else none with
  | some .folder =>
    faultEither (text ++ ": Permission denied") (text ++ ": Is a directory")
    return 126
  | some _ =>
    fault (text ++ ": Permission denied")
    return 126
  | none =>
    let missing := if name.contains '/' then "No such file or directory" else "command not found"
    faultEither (text ++ if name.isEmpty then ": Permission denied" else ": not found")
      (text ++ ": " ++ missing)
    return 127

/-! ## Redirections -/

def openOutput (descriptor : Nat) (append : Bool) (target : Bytes) : Exec Bool := do
  let m ← get
  let written := target.toText
  if written = "/dev/stdout" ∨ written = "/dev/stderr" then
    set (m.setTarget descriptor (m.targets.lookup (if written = "/dev/stdout" then 1 else 2)))
    return true
  let opened : Except Fault (Path × Workspace) :=
    match m.workspace.walk m.folder written with
    | .error f => .error f
    | .ok p =>
      let old := match m.workspace.find? p with
        | some (.file content) => if append then content else []
        | _ => []
      (m.workspace.write p old).map fun w => (p, w)
  match opened with
  | .ok (p, workspace) =>
    set ({ m with workspace }.setTarget descriptor (some (.file p)))
    return true
  | .error f =>
    let reason := if f = .notFound then "Directory nonexistent" else f.reason
    faultEither ("cannot create " ++ written ++ ": " ++ reason) (written ++ ": " ++ f.reason)
    return false

def openInput (target : Bytes) : Exec Bool := do
  let m ← get
  let written := target.toText
  let content : Except Fault Bytes :=
    match m.workspace.walk m.folder written with
    | .error f => .error f
    | .ok p => m.workspace.read p
  match content with
  | .ok input =>
    set { m with input }
    return true
  | .error f =>
    let reason := if f = .notFound then "No such file" else f.reason
    faultEither ("cannot open " ++ written ++ ": " ++ reason) (written ++ ": " ++ f.reason)
    return false

/-- Makes a descriptor lead where another one leads, or nowhere. -/
def duplicate (descriptor : Nat) (target : Bytes) : Exec Bool := do
  let m ← get
  if target = ['-'] then
    set (m.setTarget descriptor none)
    return true
  match Arithmetic.digitsIn? 10 target with
  | some n =>
    if n ≠ 0 ∧ (m.targets.lookup n).isNone then
      faultEither (toString n ++ ": Bad file descriptor") (toString n ++ ": Bad file descriptor")
      return false
    if descriptor ≠ 0 then set (m.setTarget descriptor (m.targets.lookup n))
    return true
  | none =>
    faultEither "Bad fd number" (target.toText ++ ": ambiguous redirect")
    return false

/-! ## Commands -/

mutual

def expand : Nat → List Piece → Exec (List Atom)
  | 0, _ => throw .endless
  | _, [] => return []
  | fuel + 1, p :: rest => do
    let first ← expandPiece fuel p
    return first ++ (← expand fuel rest)

def expandPiece : Nat → Piece → Exec (List Atom)
  | 0, _ => throw .endless
  | _, .text s quoted => return Atom.written s quoted
  | fuel + 1, .output script quoted => do
    let (_, text) ← withOutput (subshell (runAll fuel script))
    modify fun m => { m with substituted := some m.status }
    return Atom.expanded ((text.filter (· ≠ '\x00')).reverse.dropWhile (· = '\n')).reverse quoted
  | fuel + 1, .arithmetic body quoted => do
    let text := Atom.text (← expand fuel body)
    let m ← get
    let result : Except Arithmetic.Fault _ :=
      match Arithmetic.Expr.parse text with
      | .error f => .error f
      | .ok e => e.evaluate m.bindings.get? []
    match result with
    | .ok (v, changes) =>
      changes.reverse.forM fun (x, value) => assign x value
      return Atom.expanded (Arithmetic.render v) quoted
    | .error f => die (f.message text) 2
  | fuel + 1, .parameter name action word quoted => do
    let m ← get
    let value := parameter? m name
    let present := fun orEmpty => if orEmpty then value.any (!·.isEmpty) else value.isSome
    let several := name = ['@'] || name = ['*']
    let whole := if several then argumentAtoms m name quoted
      else Atom.expanded (value.getD []) quoted
    match action with
    | .plain =>
      if m.demandSet && value.isNone && !several then 
        refuseUnset name "parameter not set" "unbound variable"
      return whole
    | .unknown => dieEither "Bad substitution" ("$\x7b" ++ name.toText ++ "\x7d: bad substitution")
    | .length => return Atom.expanded (Nat.toDigits 10 (value.getD []).length) quoted
    | .default orEmpty => if present orEmpty then return whole else expandWord fuel word quoted
    | .alternative orEmpty =>
      if present orEmpty then expandWord fuel word quoted else return Atom.expanded [] quoted
    | .assign orEmpty =>
      if present orEmpty then return whole
      else
        let value := Atom.text (← expand fuel word)
        assign name.toText value
        return Atom.expanded value quoted
    | .demand orEmpty =>
      if present orEmpty then return whole
      else
        let message := Atom.text (← expand fuel word)
        let message := if message.isEmpty
          then "parameter not set" ++ (if orEmpty then " or null" else "") else message.toText
        refuseUnset name message message
    | .dropStart longest =>
      let pattern := Pattern.parse (Atom.glyphs (← expand fuel word))
      return Atom.expanded (pattern.dropStart longest (value.getD [])) quoted
    | .dropEnd longest =>
      let pattern := Pattern.parse (Atom.glyphs (← expand fuel word))
      return Atom.expanded (pattern.dropEnd longest (value.getD [])) quoted

/-- A word in the place of a value: its text is split unless it is quoted. -/
def expandWord : Nat → List Piece → Bool → Exec (List Atom)
  | 0, _, _ => throw .endless
  | fuel + 1, word, quoted => do
    let atoms ← expand fuel word
    return (if quoted then [.quote] else []) ++ atoms.map fun a =>
      match a with
      | .char g splits => .char g (splits || !g.2)
      | a => a

def fields : Nat → List (List Piece) → Exec (List Bytes)
  | 0, _ => throw .endless
  | _, [] => return []
  | fuel + 1, w :: rest => do
    let atoms ← expand fuel w
    let m ← get
    let found := (fieldsOf (separators m) atoms).flatMap (pathsOf m.workspace m.folder)
    return found ++ (← fields fuel rest)

def values : Nat → List (Bytes × List Piece) → Exec (List (String × Bytes))
  | 0, _ => throw .endless
  | _, [] => return []
  | fuel + 1, (x, w) :: rest => do
    let value := Atom.text (← expand fuel w)
    return (x.toText, value) :: (← values fuel rest)

/-- Applies redirections up to the first that fails. -/
def redirectAll : Nat → List Redirect → Exec Bool
  | 0, _ => throw .endless
  | _, [] => return true
  | fuel + 1, .mk descriptor kind target :: rest => do
    let target := Atom.text (← expand fuel target)
    let done ←
      match kind with
      | .read => openInput target
      | .write => openOutput descriptor false target
      | .append => openOutput descriptor true target
      | .duplicate => duplicate descriptor target
      | .here => do
        modify fun m => { m with input := target }
        pure true
    if done then redirectAll fuel rest else return false

/-- Runs a compound command with its redirections. -/
def redirected : Nat → List Redirect → Exec Unit → Exec Unit
  | 0, _, _ => throw .endless
  | fuel + 1, rs, x =>
    withTargets (rs.any isInput) do
      if ← redirectAll fuel rs then x else setStatus (if (← get).manner = .bash then 1 else 2)

def runAll : Nat → List Command → Exec Unit
  | 0, _ => throw .endless
  | _, [] => return
  | fuel + 1, c :: rest => do
    run fuel c
    runAll fuel rest

def run : Nat → Command → Exec Unit
  | 0, _ => throw .endless
  | fuel + 1, .simple line assignments words redirects => do
    modify fun m => { m with line, substituted := none }
    match ← fields fuel words with
    | [] =>
      let entries ← values fuel assignments
      entries.forM fun (x, v) => assign x v
      let done ← withTargets true (redirectAll fuel redirects)
      modify fun m => { m with
        status := if !done then 2 else m.substituted.getD 0 }
    | name :: arguments =>
      let entries ← values fuel assignments
      if name = "exec".toList ∧ arguments.isEmpty then
        let done ← redirectAll fuel redirects
        setStatus (if done then 0 else 2)
      else
        withTargets (redirects.any isInput) do
          if ← redirectAll fuel redirects then
            setStatus (← invoke fuel entries name arguments)
          else if Builtin.special.contains name.toText ∧ (← get).manner = .posix then
            throw (.exit 2)
          else setStatus (if (← get).manner = .bash then 1 else 2)
    checkStatus
  | fuel + 1, .pipeline negated parts => do
    match negated, parts with
    | true, [c] => guarding (run fuel c)
    | true, parts => guarding (pipe fuel parts)
    | false, parts => pipe fuel parts
    if negated then modify fun m => { m with status := if m.status = 0 then 1 else 0 }
    else checkStatus
  | fuel + 1, .both a b => do
    guarding (run fuel a)
    if (← get).status = 0 then run fuel b
  | fuel + 1, .either a b => do
    guarding (run fuel a)
    if (← get).status ≠ 0 then run fuel b
  | fuel + 1, .group body rs => redirected fuel rs (runAll fuel body)
  | fuel + 1, .subshell body rs => do
    redirected fuel rs (subshell (runAll fuel body))
    checkStatus
  | fuel + 1, .branch test body other rs =>
    redirected fuel rs do
      guarding (runAll fuel test)
      if (← get).status = 0 then runAll fuel body
      else
        setStatus 0
        runAll fuel other
  | fuel + 1, .loop untilTrue test body rs =>
    redirected fuel rs (looping (repeatWhile fuel untilTrue test body 0))
  | fuel + 1, .each name words body rs =>
    redirected fuel rs do
      let items ← match words with
        | some ws => fields fuel ws
        | none => pure (← get).arguments
      setStatus 0
      looping (forEach fuel name items body)
  | fuel + 1, .choose word cases rs =>
    redirected fuel rs do
      let text := Atom.text (← expand fuel word)
      setStatus 0
      choose fuel text cases
  | _ + 1, .define name body => do
    modify fun m => { m with
      functions := (name, body) :: m.functions.filter fun f => f.1 ≠ name, status := 0 }
  | fuel + 1, .background c => do
    let before ← get
    let ((_, errors), text) ← withOutput (withErrors (subshell (run fuel c)))
    let after ← get
    let entries := [(1, text), (2, errors)].filterMap fun (d, text) =>
      (before.targets.lookup d).map fun target => ({ time := after.elapsed, target, text } : Late)
    set { after with
      late := after.late ++ entries.filter fun e : Late => !e.text.isEmpty
      background := max after.background after.elapsed
      elapsed := before.elapsed, status := 0 }
where
  looping (x : Exec Unit) : Exec Unit :=
    withRestored (fun before after => { after with loops := before.loops }) do
      modify fun m => { m with loops := m.loops + 1 }
      x

def loopBody : Nat → List Command → Exec Bool
  | 0, _ => throw .endless
  | fuel + 1, body => do
    match ← attempt (runAll fuel body) with
    | .ok () => return true
    | .error (.leave n) => if n ≤ 1 then return false else throw (.leave (n - 1))
    | .error (.again n) => if n ≤ 1 then return true else throw (.again (n - 1))
    | .error s => throw s

/-- Runs a loop. Its status is that of the last command of its body. -/
def repeatWhile : Nat → Bool → List Command → List Command → Nat → Exec Unit
  | 0, _, _, _, _ => throw .endless
  | fuel + 1, untilTrue, test, body, last => do
    guarding (runAll fuel test)
    if ((← get).status = 0) != untilTrue then
      let goesOn ← loopBody fuel body
      let status := (← get).status
      if goesOn then repeatWhile fuel untilTrue test body status
    else setStatus last

def forEach : Nat → Bytes → List Bytes → List Command → Exec Unit
  | 0, _, _, _ => throw .endless
  | _, _, [], _ => return
  | fuel + 1, name, item :: rest, body => do
    assign name.toText item
    if ← loopBody fuel body then forEach fuel name rest body

def choose : Nat → Bytes → List (List (List Piece) × List Command) → Exec Unit
  | 0, _, _ => throw .endless
  | _, _, [] => return
  | fuel + 1, text, (patterns, body) :: rest => do
    if ← covered fuel text patterns then runAll fuel body else choose fuel text rest

def covered : Nat → Bytes → List (List Piece) → Exec Bool
  | 0, _, _ => throw .endless
  | _, _, [] => return false
  | fuel + 1, text, p :: rest => do
    let pattern := Pattern.parse (Atom.glyphs (← expand fuel p))
    if pattern.covers text then return true else covered fuel text rest

/-- Runs commands at the same time. Each reads what the one before it writes. -/
def pipe : Nat → List Command → Exec Unit
  | 0, _ => throw .endless
  | _, [] => return
  | fuel + 1, [c] => subshell (run fuel c)
  | fuel + 1, c :: rest => do
    let start := (← get).elapsed
    let (_, text) ← withOutput (subshell (run fuel c))
    let m ← get
    set { m with input := text, elapsed := start }
    pipe fuel rest
    modify fun after => { after with
      input := m.input, elapsed := max m.elapsed after.elapsed
      status := if after.wholePipes && after.status = 0 then m.status else after.status }

def invoke : Nat → List (String × Bytes) → Bytes → List Bytes → Exec Nat
  | 0, _, _, _ => throw .endless
  | fuel + 1, entries, name, arguments => do
    let m ← get
    if Builtin.special.contains name.toText then
      entries.forM fun (x, v) => assign x v
      special fuel name arguments
    else
      withRestored (fun before after => if entries.isEmpty then after else { after with
          bindings := entries.foldl (fun vars e =>
            match before.bindings.get? e.1 with
            | some v => vars.insert e.1 v
            | none => vars.erase e.1) after.bindings
          exported := before.exported }) do
        modify (setEnvironment entries)
        match m.functions.lookup name with
        | some body => call fuel body arguments
        | none =>
          match Builtin.table.lookup name.toText with
          | some utility => utility arguments
          | none =>
            if name = "command".toList then
              match arguments with
              | ['-', 'v'] :: names =>
                let found := names.filter fun n =>
                  Builtin.isProgram n || (Builtin.table.lookup n.toText).isSome
                found.forM fun n => say (Builtin.placeOf n ++ ['\n'])
                return if found.isEmpty then 127 else 0
              | n :: rest => start fuel false n rest
              | [] => return 0
            else if name = "[[".toList ∧ (← get).manner = .bash then
              Utility.testUtility "[[" true ((arguments.filter (· ≠ "]]".toList)) ++ [[']']])
            else start fuel false name arguments

/-- Runs a utility that works on the shell itself. -/
def special : Nat → Bytes → List Bytes → Exec Nat
  | 0, _, _ => throw .endless
  | fuel + 1, name, arguments => do
    match name.toText, arguments with
    | "eval", _ =>
      runScript fuel (Script.parse (Utility.joined arguments))
      return (← get).status
    | ".", file :: _ =>
      let m ← get
      match m.workspace.walk m.folder file.toText >>= m.workspace.read with
      | .ok text =>
        runScript fuel (Script.parse text)
        return (← get).status
      | .error _ =>
        dieEither (".: cannot open " ++ file.toText ++ ": No such file")
          (file.toText ++ ": No such file or directory")
    | "exec", name :: rest => throw (.exit (← start fuel false name rest))
    | text, _ =>
      match Builtin.table.lookup text with
      | some utility => utility arguments
      | none => return 0

def call : Nat → Command → List Bytes → Exec Nat
  | 0, _, _ => throw .endless
  | fuel + 1, body, arguments =>
    withRestored (fun before after => { after with
        arguments := before.arguments, loops := before.loops }) do
      modify fun m => { m with arguments, loops := 0 }
      match ← attempt (run fuel body) with
      | .ok () => return (← get).status
      | .error (.giveBack n) => return n
      | .error s => throw s

def runScript : Nat → Script → Exec Unit
  | 0, _ => throw .endless
  | fuel + 1, script => do
    runLines fuel script.lines
    match script.flaw with
    | none => return
    | some (line, flaw) =>
      modify fun m => { m with line }
      dieEither ("Syntax error: " ++ flaw.message) ("syntax error: " ++ flaw.message)

def runLines : Nat → List (List Command) → Exec Unit
  | 0, _ => throw .endless
  | _, [] => return
  | fuel + 1, line :: rest => do
    runAll fuel line
    runLines fuel rest

/-- Runs a whole script, with what it wants to be done at its exit and on signals. -/
def runToEnd : Nat → Script → Exec Nat
  | 0, _ => throw .endless
  | fuel + 1, script => do
    let result ← attempt (runScript fuel script)
    match result with
    | .ok () | .error (.leave _) | .error (.again _) => atExit fuel (← get).status
    | .error (.exit n) | .error (.giveBack n) => atExit fuel n
    | .error s => throw s

def atExit : Nat → Nat → Exec Nat
  | 0, _ => throw .endless
  | fuel + 1, status => do
    setStatus status
    match (← get).traps.lookup 0 with
    | none => return status
    | some action =>
      match ← attempt (runScript fuel (Script.parse action)) with
      | .ok () => return status
      | .error (.exit n) => return n
      | .error s => throw s

def runShell : Nat → Manner → Bytes → List Bytes → Exec Nat
  | 0, _, _, _ => throw .endless
  | fuel + 1, manner, name, arguments => do
    let letters := (arguments.takeWhile fun a => a.head? = some '-').flatMap (·.drop 1)
    let rest := arguments.dropWhile fun a => a.head? = some '-'
    modify (Builtin.switch true letters)
    modify fun m => { m with manner }
    if manner = .bash then modify fun m => m.set "BASH_VERSION" "5.2.21(1)-release".toList
    if letters.contains 'c' then
      match rest with
      | [] =>
        modify fun m => { m with name, line := 0 }
        die "-c requires an argument" 2
      | script :: rest =>
        modify fun m => { m with name := rest.headD name, arguments := rest.drop 1 }
        runToEnd fuel (Script.parse script)
    else
      match rest with
      | [] =>
        let text := (← get).input
        modify fun m => { m with name, input := [] }
        runToEnd fuel (Script.parse text)
      | file :: rest =>
        let m ← get
        match m.workspace.walk m.folder file.toText >>= m.workspace.read with
        | .ok text =>
          modify fun m => { m with name := file, arguments := rest }
          runToEnd fuel (Script.parse text)
        | .error f =>
          modify fun m => { m with name, line := 0 }
          let reason := if f = .notFound then "No such file" else f.reason
          dieEither ("cannot open " ++ file.toText ++ ": " ++ reason)
            (file.toText ++ ": " ++ f.reason)

/-- Starts a program. One that is `alone` was not started by a shell. -/
def start : Nat → Bool → Bytes → List Bytes → Exec Nat
  | 0, _, _, _ => throw .endless
  | fuel + 1, alone, written, arguments => do
    let name := (Builtin.programName written).toText
    match Builtin.shells.lookup name with
    | some manner => process id (runShell fuel manner written arguments)
    | none =>
      if name = "env" then
        let bare := arguments.head? = some "-i".toList
        let arguments := if bare then arguments.drop 1 else arguments
        let entries := arguments.takeWhile (·.contains '=')
        let entries := entries.map fun e => ((Builtin.binding e).1, (Builtin.binding e).2.getD [])
        let prepare := fun m : Machine =>
          setEnvironment entries (if bare then { m with bindings := ∅, exported := [] } else m)
        match arguments.drop entries.length with
        | [] => process prepare (Utility.printEnvironment [])
        | program :: rest =>
          if Builtin.isProgram program then process prepare (start fuel true program rest)
          else
            complain ("env: '" ++ program.toText ++ "': No such file or directory")
            return 127
      else
        match Utility.programs.lookup name with
        | none => notFound written
        | some utility =>
          if alone || written.contains '/' then
            process (fun m => { m with manner := .program }) (utility arguments)
          else
            match ← attempt (utility arguments) with
            | .ok n => return n
            | .error (.killed n) =>
              match (← get).traps.lookup n with
              | some action =>
                runScript fuel (Script.parse action)
                return 0
              | none => throw (.killed n)
            | .error s => throw s

end

end Shell
end Conveyor
