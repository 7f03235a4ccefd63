import Conveyor.Shell.Condition
import Conveyor.Shell.Format

/-!
# Conveyor.Shell.Utility

Programs that only work on the machine. Each gives its exit status.

* `Utility.programs` — those that are programs of their own.
* `Utility.sleep`    — lets time pass.
* `Utility.kill`     — sends a signal; the only process there is is the script itself.
-/

namespace Conveyor
namespace Shell

abbrev Utility := List Bytes → Exec Nat

namespace Utility

/-! ## Texts -/

def joined (words : List Bytes) : Bytes := [' '].intercalate words

/-- The escapes of formats and texts in a kind of shell. -/
def escapesOf (m : Manner) : Escapes := { hexadecimal := m ≠ .posix }

/-- The options of `echo` in front of its words: no line end, and escapes. -/
def echoOptions : Bool × Bool → List Bytes → (Bool × Bool) × List Bytes
  | o, [] => (o, [])
  | (bare, escapes), w :: rest =>
    match w with
    | '-' :: letters =>
      if !letters.isEmpty && letters.all fun c => "neE".toList.contains c then
        echoOptions (bare || letters.contains 'n',
          letters.foldl (fun e c => if c = 'e' then true else if c = 'E' then false else e) escapes)
          rest
      else ((bare, escapes), w :: rest)
    | _ => ((bare, escapes), w :: rest)

def echo : Utility := fun words => do
  let manner := (← get).manner
  let ((bare, escapes), words) :=
    if manner ≠ .posix then echoOptions (false, false) words
    else if words.head? = some "-n".toList then ((true, true), words.drop 1)
    else ((false, true), words)
  let (text, stopped) :=
    if escapes then
      unescape { escapesOf manner with leadingZero := true, stops := true } (joined words)
    else (joined words, false)
  say (if bare || stopped then text else text ++ ['\n'])
  return 0

def printf : Utility := fun words => do
  let words := if words.head? = some "--".toList then words.drop 1 else words
  match words with
  | [] =>
    fault (if (← get).manner = .bash then "printf: usage: printf [-v var] format [arguments]"
      else "printf: usage: printf format [arg ...]")
    return 2
  | format :: arguments =>
    let manner := (← get).manner
    let (text, faults, stopped) := Format.render (escapesOf manner) format arguments
    faults.forM fun f => fault ("printf: " ++ f)
    say text
    return if faults.isEmpty then 0 else if stopped then 2 else 1

/-! ## Conditions -/

def testUtility (name : String) (bracket : Bool) : Utility := fun words => do
  if bracket && words.getLast? ≠ some [']'] then
    faultEither (name ++ ": missing ]") (name ++ ": missing \x60]'")
    return 2
  let m ← get
  let words := if bracket then words.dropLast else words
  match Condition.evaluate m (words.length + 1) words with
  | .ok b => return if b then 0 else 1
  | .error e =>
    fault (name ++ ": " ++ e)
    return 2

/-! ## Files -/

/-- What a utility does with each of its words, and whether it went well. -/
def eachWord (words : List Bytes) (f : Bytes → Exec Bool) : Exec Nat := do
  let results ← words.mapM f
  return if results.all id then 0 else 1

/-- Splits words into options, without their dash, and others. -/
def options : List Bytes → Bytes × List Bytes
  | [] => ([], [])
  | w :: rest =>
    match w with
    | ['-', '-'] => ([], rest)
    | '-' :: c :: letters =>
      let (os, others) := options rest
      (c :: letters ++ os, others)
    | _ =>
      let (os, others) := options rest
      (os, w :: others)

def contentOf (utility : String) (written : Bytes) : Exec (Option Bytes) := do
  let m ← get
  if written = ['-'] then
    set { m with input := [] }
    return some m.input
  let result : Except Fault _ :=
    match m.workspace.walk m.folder written.toText with
    | .error f => .error f
    | .ok p => m.workspace.read p
  match result with
  | .ok content => return some content
  | .error f =>
    complain (utility ++ ": " ++ written.toText ++ ": " ++ f.reason)
    return none

/-- The contents of files, or the standard input when none is named, and whether all could be
read. -/
def contents (utility : String) (files : List Bytes) : Exec (List Bytes × Nat) := do
  let files := if files.isEmpty then [['-']] else files
  let all ← files.mapM (contentOf utility)
  return (all.filterMap id, if all.all Option.isSome then 0 else 1)

def cat : Utility := fun words => do
  let files := if words.isEmpty then [['-']] else words
  eachWord files fun w => do
    match ← contentOf "cat" w with
    | some text =>
      say text
      return true
    | none => return false

def change (utility verb : String) (written : Bytes)
    (f : Workspace → Path → Except Fault Workspace) : Exec Bool := do
  let m ← get
  let result : Except Fault _ :=
    match m.workspace.walk m.folder written.toText with
    | .error e => .error e
    | .ok p => f m.workspace p
  match result with
  | .ok workspace =>
    set { m with workspace }
    return true
  | .error e =>
    complain (utility ++ ": cannot " ++ verb ++ " '" ++ written.toText ++ "': " ++ e.reason)
    return false

def touch : Utility := fun words =>
  eachWord words fun w => change "touch" "touch" w fun ws p =>
    if (ws.find? p).isSome then .ok ws else ws.write p []

def mkdir : Utility := fun words =>
  let (os, folders) := options words
  eachWord folders fun w => do
    if os.contains 'p' then
      modify fun m =>
        let p := Workspace.resolve m.folder w.toText
        { m with workspace := m.workspace.makeParents (p ++ ["."]) }
      return true
    else change "mkdir" "create directory" w Workspace.makeFolder

def rm : Utility := fun words =>
  let (os, files) := options words
  eachWord files fun w => do
    let m ← get
    if os.contains 'f' && (m.workspace.entryAt? m.folder w.toText).isNone then return true
    change "rm" "remove" w fun ws p =>
      match ws.find? p with
      | none => .error .notFound
      | some .folder =>
        if os.contains 'r' || os.contains 'R' then .ok (ws.remove p) else .error .isFolder
      | some _ => .ok (ws.remove p)

def namesIn (ws : Workspace) (p : Path) : List String :=
  let names := ws.entries.filterMap fun (q, _) =>
    if q.length = p.length + 1 ∧ q.take p.length = p then q.getLast? else none
  names.mergeSort fun a b => decide (a ≤ b)

def ls : Utility := fun words => do
  let (os, places) := options words
  let places := if places.isEmpty then [['.']] else places
  let status ← eachWord places fun w => do
    let m ← get
    match m.workspace.walk m.folder w.toText with
    | .error e =>
      complain ("ls: cannot access '" ++ w.toText ++ "': " ++ e.reason)
      return false
    | .ok p =>
      match m.workspace.find? p with
      | none =>
        complain ("ls: cannot access '" ++ w.toText ++ "': " ++ Fault.notFound.reason)
        return false
      | some .folder =>
        (namesIn m.workspace p).forM fun n => do
          if os.contains 'a' || n.toList.head? ≠ some '.' then sayLine n
        return true
      | some _ =>
        say (w ++ ['\n'])
        return true
  return 2 * status

/-! ## Lines and words -/

/-- The lines of a text with their ends. -/
def endedLines (s : Bytes) : List Bytes :=
  let parts := Text.splitOn '\n' s
  (parts.dropLast.map (· ++ ['\n'])) ++ (parts.getLast?.toList.filter fun l => !l.isEmpty)

structure Amount where
  bytes : Bool := false
  count : Nat := 10

/-- The amount that options give in one of their forms, and the files. -/
def amount : List Bytes → Amount × List Bytes
  | ['-', 'n'] :: n :: rest => ({ count := numeral n }, rest)
  | ['-', 'c'] :: n :: rest => ({ bytes := true, count := numeral n }, rest)
  | ('-' :: 'n' :: n) :: rest => ({ count := numeral n }, rest)
  | ('-' :: 'c' :: n) :: rest => ({ bytes := true, count := numeral n }, rest)
  | ('-' :: d :: n) :: rest =>
    if d.isDigit then ({ count := numeral (d :: n) }, rest) else ({}, rest)
  | rest => ({}, rest)
where
  numeral (s : Bytes) : Nat := (Arithmetic.digitsIn? 10 s).getD 10

def head : Utility := fun words => do
  let (a, files) := amount words
  let (texts, status) ← contents "head" files
  texts.forM fun t =>
    say (if a.bytes then t.take a.count else ((endedLines t).take a.count).flatten)
  return status

def last : Utility := fun words => do
  let (a, files) := amount words
  let (texts, status) ← contents "tail" files
  texts.forM fun t =>
    let lines := endedLines t
    say (if a.bytes then t.drop (t.length - a.count)
      else (lines.drop (lines.length - a.count)).flatten)
  return status

def wordCount (s : Bytes) : Nat :=
  let blank := fun c : Char => c = ' ' || c = '\n' || c = '\t' || c = '\r'
  ((' ' :: s).zip s).countP fun (a, b) => blank a && !blank b

def countsOf (letters : Bytes) (text : Bytes) : List Nat :=
  let counts := [('l', text.countP (· = '\n')), ('w', wordCount text), ('c', text.length)]
  (counts.filter fun e => letters.isEmpty || letters.contains e.1).map (·.2)

def countLine (width : Nat) (counts : List Nat) (name : String) : String :=
  let shown := counts.map fun n =>
    let n := toString n
    String.ofList (List.replicate (width - n.length) ' ') ++ n
  " ".intercalate shown ++ (if name.isEmpty then "" else " " ++ name)

def wc : Utility := fun words => do
  let (os, files) := options words
  if files.isEmpty then
    let text := (← contentOf "wc" ['-']).getD []
    let counts := countsOf os text
    sayLine (countLine (if counts.length = 1 then 1 else 7) counts "")
    return 0
  else
    let all ← files.mapM fun f => do return (f.toText, ← contentOf "wc" f)
    let texts := all.filterMap fun (f, t) => t.map (f, ·)
    let total := (texts.map (·.2)).flatten
    let width := (toString total.length).length
    let width := if (countsOf os []).length = 1 && texts.length = 1 then 1 else width
    texts.forM fun (f, t) => sayLine (countLine width (countsOf os t) f)
    if 1 < files.length then sayLine (countLine width (countsOf os total) "total")
    return if texts.length = files.length then 0 else 1

def seq : Utility := fun words => do
  match words.mapM Arithmetic.number? with
  | none =>
    complain "seq: invalid argument"
    return 1
  | some numbers =>
    let (first, step, last) :=
      match numbers with
      | [last] => ((1 : Int64), (1 : Int64), last)
      | [first, last] => (first, 1, last)
      | first :: step :: last :: _ => (first, step, last)
      | [] => (1, 1, 0)
    if step = 0 then return 1
    let count := Int.toNat ((last.toInt - first.toInt) / step.toInt + 1)
    (List.range count).forM fun i => sayLine (toString (first.toInt + i * step.toInt))
    return 0

def leadingNumber (l : Bytes) : Int :=
  let l := l.dropWhile fun c => c = ' ' || c = '\t'
  let negative := l.head? = some '-'
  let digits := (if negative then l.drop 1 else l).takeWhile Char.isDigit
  let n := Int.ofNat ((Arithmetic.digitsIn? 10 digits).getD 0)
  if negative then -n else n

def sort : Utility := fun words => do
  let (os, files) := options words
  let (texts, status) ← contents "sort" files
  let lines := (texts.flatMap endedLines).map fun l => l.filter (· ≠ '\n')
  let before := fun a b : Bytes =>
    if os.contains 'n' && leadingNumber a ≠ leadingNumber b then
      decide (leadingNumber a < leadingNumber b)
    else decide (String.ofList a ≤ String.ofList b)
  let sorted := lines.mergeSort before
  let sorted := if os.contains 'u' then sorted.eraseReps else sorted
  let sorted := if os.contains 'r' then sorted.reverse else sorted
  sorted.forM fun l => say (l ++ ['\n'])
  return status

def uniq : Utility := fun words => do
  let (texts, status) ← contents "uniq" words
  let lines := (texts.flatMap endedLines).map fun l => l.filter (· ≠ '\n')
  lines.eraseReps.forM fun l => say (l ++ ['\n'])
  return status

def charactersOf : Bytes → Bytes
  | a :: '-' :: b :: rest =>
    (List.range (b.toNat + 1 - a.toNat)).map (fun i => Char.ofNat (a.toNat + i)) ++
      charactersOf rest
  | a :: rest => a :: charactersOf rest
  | [] => []

/-- The set that a word of `tr` stands for. -/
def setOf (w : Bytes) : Bytes :=
  match w.toText with
  | "[:lower:]" => charactersOf "a-z".toList
  | "[:upper:]" => charactersOf "A-Z".toList
  | "[:digit:]" => charactersOf "0-9".toList
  | "[:space:]" => " \t\n\x0b\x0c\r".toList
  | _ => charactersOf (unescape {} w).1

def tr : Utility := fun words => do
  let (os, sets) := options words
  let input := (← contentOf "tr" ['-']).getD []
  let first := setOf (sets.headD [])
  if os.contains 'd' then
    say (input.filter fun c => !first.contains c)
  else
    let second := setOf (sets.getD 1 [])
    say (input.map fun c =>
      match first.idxOf? c with
      | some i => (second[i]? <|> second.getLast?).getD c
      | none => c)
  return 0

def lastName (s : Bytes) : Bytes :=
  let bare := (s.reverse.dropWhile (· = '/')).reverse
  if bare.isEmpty then s.take 1 else (bare.reverse.takeWhile (· ≠ '/')).reverse

def basename : Utility := fun words => do
  let name := lastName (words.headD [])
  let ending := words.getD 1 []
  let cut := name.take (name.length - ending.length)
  say ((if cut ++ ending = name ∧ !cut.isEmpty then cut else name) ++ ['\n'])
  return 0

def dirname : Utility := fun words => do
  let s := ((words.headD []).reverse.dropWhile (· = '/')).dropWhile (· ≠ '/')
  let s := (s.dropWhile (· = '/')).reverse
  let absolute := (words.headD []).head? = some '/'
  say ((if s.isEmpty then (if absolute then ['/'] else ['.']) else s) ++ ['\n'])
  return 0

/-! ## Time and processes -/

/-- The milliseconds in a written duration. -/
def duration? (s : Bytes) : Option Nat :=
  let unit := match s.getLast? with
    | some 's' => some 1000
    | some 'm' => some 60000
    | some 'h' => some 3600000
    | some 'd' => some 86400000
    | _ => none
  let s := if unit.isSome then s.dropLast else s
  let whole := s.takeWhile Char.isDigit
  let fraction := match s.drop whole.length with
    | '.' :: f => f
    | rest => rest.map fun _ => 'x'
  if whole.isEmpty && fraction.isEmpty || !fraction.all Char.isDigit then none
  else
    let digits := whole ++ fraction
    some ((Arithmetic.digitsIn? 10 digits).getD 0 * unit.getD 1000 / Nat.pow 10 fraction.length)

def sleep : Utility := fun words => do
  let help := "Try 'sleep --help' for more information."
  if words.isEmpty then
    complain "sleep: missing operand"
    complain help
    return 1
  match words.find? fun w => (duration? w).isNone with
  | some w =>
    complain ("sleep: invalid time interval '" ++ w.toText ++ "'")
    complain help
    return 1
  | none =>
    let total := words.foldl (fun n w => n + (duration? w).getD 0) 0
    modify fun m => { m with elapsed := m.elapsed + total }
    return 0

def signals : List (String × Nat) :=
  [("EXIT", 0), ("HUP", 1), ("INT", 2), ("QUIT", 3), ("ABRT", 6), ("KILL", 9), ("USR1", 10),
    ("SEGV", 11), ("USR2", 12), ("PIPE", 13), ("ALRM", 14), ("TERM", 15)]

/-- The number of a signal that is written as a name or a number. -/
def signal? (s : Bytes) : Option Nat :=
  let name := s.toText
  let name := if name.startsWith "SIG" then (name.drop 3).toString else name
  signals.lookup name <|> Arithmetic.digitsIn? 10 s

/-- The number of the process in which a script runs. -/
def ownProcess : Bytes := "4242".toList

def kill : Utility := fun words => do
  let (number, targets) :=
    match words with
    | ['-', 's'] :: name :: rest => (signal? name, rest)
    | ('-' :: c :: name) :: rest => (signal? (c :: name), rest)
    | rest => (some 15, rest)
  match number, targets with
  | none, _ =>
    fault ("kill: invalid signal number or name: " ++ Bytes.toText ((words.headD []).drop 1))
    return 1
  | some n, [target] =>
    if target = ownProcess || target = ['0'] then
      if n = 0 then return 0 else throw (.killed n)
    else
      match Arithmetic.digitsIn? 10 target with
      | some _ =>
        fault "kill: No such process\n"
        return 1
      | none =>
        fault ("kill: Illegal number: " ++ target.toText)
        return 2
  | some _, _ => return 1

def printEnvironment : Utility := fun words => do
  let m ← get
  if words.isEmpty then
    m.environment.forM fun (x, v) => say (Bytes.ofString x ++ '=' :: v ++ ['\n'])
    return 0
  else
    eachWord words fun w => do
      match m.environment.lookup w.toText with
      | some v =>
        say (v ++ ['\n'])
        return true
      | none => return false

def pwd : Utility := fun _ => do
  sayLine (Workspace.pathText (← get).folder)
  return 0

def programs : List (String × Utility) :=
  [("true", fun _ => return 0), ("false", fun _ => return 1), ("echo", echo), ("printf", printf),
    ("test", testUtility "test" false), ("[", testUtility "[" true), ("pwd", pwd), ("cat", cat),
    ("touch", touch), ("mkdir", mkdir), ("rm", rm), ("ls", ls), ("head", head), ("tail", last),
    ("wc", wc), ("sort", sort),
    ("uniq", uniq), ("tr", tr), ("seq", seq), ("basename", basename), ("dirname", dirname),
    ("sleep", sleep),
    ("kill", kill), ("printenv", printEnvironment)]

end Utility
end Shell
end Conveyor
