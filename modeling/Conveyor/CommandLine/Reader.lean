import Conveyor.CommandLine.Request
import Conveyor.Text.Digits
import Conveyor.Text.Search

/-!
# Conveyor.CommandLine.Reader

Reading a command line.

* `Verb`      — the levels: the program itself and its verbs.
* `Argument`  — the options, switches and operands.
* `Reading`   — the arguments of one level so far.
* `parse`     — the invocation of a command line, or why there is none.

A value is checked when the next argument begins, not where it stands. So of two faults on one
line, a word that is no argument wins over a bad value right before it, and faults after a verb
win over a value that is still open when the verb comes.
-/

namespace Conveyor
namespace CommandLine

inductive Verb where
  | init
  | run
  | validate
  | graph
  deriving DecidableEq, Repr, Inhabited

namespace Verb

def ofName? (name : String) : Option Verb :=
  match name with
  | "init" => some .init
  | "run" => some .run
  | "validate" => some .validate
  | "graph" => some .graph
  | _ => none

end Verb

inductive Argument where
  | help
  | version
  | verbose
  | directory
  | name
  | template
  | force
  | pipeline
  | event
  | ref
  | dryRun
  | maxParallel
  | report
  | noProgress
  | format
  deriving DecidableEq, Repr, Inhabited

namespace Argument

def takesValue : Argument → Bool
  | .help | .version | .verbose | .force | .dryRun | .noProgress => false
  | _ => true

def common : List (Char × String × Argument) :=
  [('h', "help", .help), ('v', "verbose", .verbose), ('C', "directory", .directory)]

/-- The options of a level with both spellings; a blank stands for a missing letter. The program
itself is the level without a verb. -/
def options : Option Verb → List (Char × String × Argument)
  | none => ('V', "version", .version) :: common
  | some .init => ('t', "template", .template) :: ('f', "force", .force) :: common
  | some .run =>
    ('e', "event", .event) :: ('r', "ref", .ref) :: (' ', "dry-run", .dryRun) ::
      ('j', "max-parallel", .maxParallel) :: (' ', "report", .report) ::
      (' ', "no-progress", .noProgress) :: common
  | some .validate => common
  | some .graph => ('f', "format", .format) :: common

def ofLetter? (verb : Option Verb) (c : Char) : Option Argument :=
  ((options verb).find? fun (letter, _) => letter = c && c ≠ ' ').map (·.2.2)

def ofWord? (verb : Option Verb) (word : String) : Option Argument :=
  ((options verb).find? fun (_, w, _) => w = word).map (·.2.2)

def operand? : Option Verb → Option Argument
  | none => none
  | some .init => some .name
  | some .run | some .validate | some .graph => some .pipeline

end Argument

/-- A count in decimal digits, after a plus if there is one. -/
def readCount? (s : String) : Option Nat :=
  let digits :=
    match s.toList with
    | '+' :: rest => rest
    | cs => cs
  (Text.natural? 10 digits).filter (· < UInt64.size)

/-- What is wrong with a value of an argument. A path is not empty. -/
def Argument.flaw? (a : Argument) (value : String) : Option Refusal :=
  match a with
  | .directory | .pipeline | .report => if value.isEmpty then some .invalidValue else none
  | .format => if (GraphFormat.ofName? value).isNone then some .invalidValue else none
  | .event =>
    match EventKind.parse value with
    | .ok _ => none
    | .error _ => some .unreadableValue
  | .maxParallel => if (readCount? value).isNone then some .unreadableValue else none
  | _ => none

/-- An argument whose values are not checked yet. -/
structure Pending where
  argument : Argument
  value : Option String := none

/-- The arguments of one level so far. -/
structure Reading where
  verb : Option Verb
  given : List (Argument × String) := []
  pending : Option Pending := none
  awaiting : Bool := false
  /-- Two dashes have ended the options. -/
  onlyOperands : Bool := false
  operands : Nat := 0

namespace Reading

def value? (r : Reading) (a : Argument) : Option String := r.given.lookup a

def has (r : Reading) (a : Argument) : Bool := (r.value? a).isSome

/-- Takes an argument in. Help and version end the reading. -/
def accept (r : Reading) (a : Argument) (value : Option String) : Except Refusal Reading :=
  match a with
  | .help => .error .help
  | .version => .error .version
  | _ =>
    if a.takesValue ∧ value = none then .error .invalidValue
    else if r.has a then .error .conflict
    else
      let text := value.getD ""
      match (if a.takesValue then a.flaw? text else none) with
      | some refusal => .error refusal
      | none => .ok { r with given := (a, text) :: r.given }

def settle (r : Reading) : Except Refusal Reading :=
  match r.pending with
  | none => .ok r
  | some p => { r with pending := none, awaiting := false }.accept p.argument p.value

/-- Takes in what is pending, then an argument. -/
def react (r : Reading) (a : Argument) (value : Option String) : Except Refusal Reading :=
  match r.settle with
  | .error e => .error e
  | .ok r => ({ r with awaiting := false }.accept a value)

/-- An option that expects a value: the attached one, or the next word. -/
def openOption (r : Reading) (a : Argument) (attached : Option String) :
    Except Refusal Reading :=
  match attached with
  | some value => r.react a (some value)
  | none =>
    match r.settle with
    | .error e => .error e
    | .ok r => .ok { r with pending := some { argument := a }, awaiting := true }

def readWord (r : Reading) (word : List Char) : Except Refusal Reading :=
  let (name, value) :=
    match Text.splitOnce '=' word with
    | some (name, value) => (name, some (String.ofList value))
    | none => (word, none)
  match Argument.ofWord? r.verb (String.ofList name) with
  | none => .error .unknownArgument
  | some a =>
    if a.takesValue then r.openOption a value
    else if value.isSome then .error .unneededValue
    else r.react a none

/-- Options by their letters. The rest of the letters after an option that expects a value is
its value, without an equals sign in front. -/
def readLetters (r : Reading) : List Char → Except Refusal Reading
  | [] => .ok r
  | c :: rest =>
    match Argument.ofLetter? r.verb c with
    | none => .error .unknownArgument
    | some a =>
      if a.takesValue then
        r.openOption a (match rest with
          | [] => none
          | '=' :: value => some (String.ofList value)
          | value => some (String.ofList value))
      else
        match r.react a none with
        | .error e => .error e
        | .ok r => readLetters r rest

/-- A word that is no option. On the level of the program it should have been a verb. -/
def readOperand (r : Reading) (word : String) : Except Refusal Reading :=
  match Argument.operand? r.verb with
  | none =>
    if r.onlyOperands ∧ ((Verb.ofName? word).isSome ∨ word = "help") then .error .unknownArgument
    else .error .unknownVerb
  | some a =>
    if r.operands = 0 then
      match r.settle with
      | .error e => .error e
      | .ok r => .ok { r with pending := some ⟨a, some word⟩, awaiting := false, operands := 1 }
    else .error .unknownArgument

/-- The next word as the value of the option before it. -/
def readValue (r : Reading) (word : String) : Reading :=
  { r with
    pending := r.pending.map fun p => { p with value := some word }
    awaiting := false }

/-- One word that is no verb. -/
def read (r : Reading) (word : String) : Except Refusal Reading :=
  if r.onlyOperands then r.readOperand word
  else
    match word.toList with
    | ['-', '-'] => .ok { r with onlyOperands := true }
    | '-' :: '-' :: rest => r.readWord rest
    | '-' :: c :: rest => r.readLetters (c :: rest)
    | _ => if r.awaiting then .ok (r.readValue word) else r.readOperand word

def readAll (r : Reading) : List String → Except Refusal Reading
  | [] => r.settle
  | word :: rest =>
    match r.read word with
    | .error e => .error e
    | .ok r => readAll r rest

/-! ## Results -/

def request (r : Reading) (verb : Verb) : Request :=
  let pipeline := (r.value? .pipeline).getD defaultPipeline
  match verb with
  | .init => .init (r.value? .name) (r.value? .template) (r.has .force)
  | .validate => .validate pipeline
  | .graph => .graph pipeline (((r.value? .format).bind GraphFormat.ofName?).getD .text)
  | .run =>
    let event :=
      match (r.value? .event).map EventKind.parse with
      | some (.ok e) => e
      | _ => .push
    .run { pipeline
           event
           ref := (r.value? .ref).getD "main"
           dryRun := r.has .dryRun
           maxParallel := (r.value? .maxParallel).bind readCount?
           report := r.value? .report
           noProgress := r.has .noProgress }

/-- What two levels ask for together. The options of the verb win. -/
def invocation (program r : Reading) (verb : Verb) : Invocation where
  request := r.request verb
  verbose := program.has .verbose || r.has .verbose
  directory := r.value? .directory <|> program.value? .directory

/-- Help about the program, about a verb, or about help itself. -/
def askHelp (words : List String) : Refusal :=
  match words with
  | [] | ["help"] => .help
  | [word] => if (Verb.ofName? word).isSome then .help else .unknownVerb
  | _ => .unknownVerb

/-- The words of the program up to its verb, and everything after it. -/
def readProgram (r : Reading) : List String → Except Refusal Invocation
  | [] =>
    match r.settle with
    | .error e => .error e
    | .ok r => .error (if r.given.isEmpty then .nothing else .missingVerb)
  | word :: rest =>
    if r.onlyOperands || r.awaiting then
      match r.read word with
      | .error e => .error e
      | .ok r => readProgram r rest
    else if word = "help" then .error (askHelp rest)
    else
      match Verb.ofName? word with
      | some verb =>
        match readAll { verb := some verb } rest with
        | .error e => .error e
        | .ok inner => r.settle.map fun r => r.invocation inner verb
      | none =>
        match r.read word with
        | .error e => .error e
        | .ok r => readProgram r rest

end Reading

def parse (words : List String) : Except Refusal Invocation :=
  Reading.readProgram { verb := none } words

end CommandLine
end Conveyor
