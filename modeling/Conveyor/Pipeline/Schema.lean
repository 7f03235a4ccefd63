import Conveyor.Pipeline.Basic
import Conveyor.Json.Basic

/-!
# Conveyor.Pipeline.Schema

The written schema of definitions, in both directions.

* `Source`            — how a document format answers each kind of demand that the schema makes.
* `Pipeline.decode?`  — the definition that a document describes.
* `Pipeline.toJson`   — the document of a definition, fields in declaration order.

A record may repeat or omit fields that the schema does not know; a known field that is
repeated makes it unreadable, and one without a default must be present.
-/

namespace Conveyor

/-- The answers of a document format to the demands of a schema. `none` always means that the
value does not have the demanded shape. -/
class Source (δ : Type) where
  text? : δ → Option String
  flag? : δ → Option Bool
  count? : δ → Option UInt64
  /-- A value that may be written as absent. -/
  optional? : δ → Option (Option δ)
  list? : δ → Option (List δ)
  table? : δ → Option (List (String × δ))
  /-- A record of a given number of fields, by name or by position. -/
  record? : Nat → δ → Option (List (String × δ) ⊕ List δ)
  /-- The name of an alternative that carries no data. -/
  variant? : δ → Option String
  command? : δ → Option Command

def Json.count (n : UInt64) : Json := .int n.toNat

namespace Schema

variable {δ α : Type} [Source δ]

def mapAll (f : δ → Option α) : List δ → Option (List α)
  | [] => some []
  | d :: rest =>
    match f d with
    | none => none
    | some a => (mapAll f rest).map (a :: ·)

/-- The values of the fields of those names, in that order. -/
def byName (fields : List (String × δ)) : List String → Option (List (Option δ))
  | [] => some []
  | n :: rest =>
    match fields.filter (·.1 = n) with
    | [] => (byName fields rest).map (none :: ·)
    | [(_, d)] => (byName fields rest).map (some d :: ·)
    | _ => none

def byPosition : List δ → List String → List (Option δ)
  | _, [] => []
  | [], _ :: rest => none :: byPosition [] rest
  | d :: ds, _ :: rest => some d :: byPosition ds rest

/-- The fields of a record, each with its value if it is there. -/
def fields? (names : List String) (d : δ) : Option (List (Option δ)) :=
  match Source.record? names.length d with
  | none => none
  | some (.inl fields) => byName fields names
  | some (.inr items) => some (byPosition items names)

def required (f : δ → Option α) : Option δ → Option α
  | none => none
  | some d => f d

def withDefault (a : α) (f : δ → Option α) : Option δ → Option α
  | none => some a
  | some d => f d

/-- A field that may be missing or written as absent. -/
def optionalField (f : δ → Option α) : Option δ → Option (Option α)
  | none => some none
  | some d =>
    match Source.optional? d with
    | none => none
    | some none => some none
    | some (some d) => (f d).map some

def listOf (f : δ → Option α) (d : δ) : Option (List α) := (Source.list? d).bind (mapAll f)

def entriesOf (f : δ → Option α) : List (String × δ) → Option (List (String × α))
  | [] => some []
  | (k, d) :: rest =>
    match f d with
    | none => none
    | some a => (entriesOf f rest).map ((k, a) :: ·)

def dictOf (f : δ → Option α) (d : δ) : Option (Dict α) :=
  match Source.table? d with
  | none => none
  | some entries => (entriesOf f entries).map Dict.ofList

def texts (d : δ) : Option (List String) := listOf Source.text? d

def outputRef (d : δ) : Option OutputRef :=
  match Source.text? d with
  | none => none
  | some s =>
    match OutputRef.parse s with
    | .ok r => some r
    | .error _ => none

def eventKind (d : δ) : Option EventKind := (Source.variant? d).bind EventKind.ofField?

def policy (d : δ) : Option Policy := (Source.variant? d).bind Policy.ofField?

end Schema

open Schema

/-! ## Reading -/

section Reading

variable {δ : Type} [Source δ]

def Settings.fieldNames : List String :=
  ["max_parallel", "timeout_secs", "cancel_grace_secs", "fail_fast", "shell"]

def Settings.decode? (d : δ) : Option Settings :=
  match fields? Settings.fieldNames d with
  | some [maxParallel, timeoutSecs, grace, failFast, shell] => do
    let maxParallel ← optionalField Source.count? maxParallel
    let timeoutSecs ← optionalField Source.count? timeoutSecs
    let cancelGraceSecs ← withDefault 10 Source.count? grace
    let failFast ← withDefault false Source.flag? failFast
    let shell ← withDefault "bash" Source.text? shell
    return { maxParallel, timeoutSecs, cancelGraceSecs, failFast, shell }
  | _ => none

def Conditions.fieldNames : List String := ["events", "branches", "branches_ignore", "if"]

def Conditions.decode? (d : δ) : Option Conditions :=
  match fields? Conditions.fieldNames d with
  | some [events, branches, branchesIgnore, expression] => do
    let events ← withDefault [] (listOf eventKind) events
    let branches ← withDefault [] texts branches
    let branchesIgnore ← withDefault [] texts branchesIgnore
    let expression ← optionalField Source.text? expression
    return { events, branches, branchesIgnore, expression }
  | _ => none

def Stage.fieldNames : List String :=
  ["name", "description", "run", "shell", "depends_on", "inputs", "outputs", "when", "on_failure",
    "allow_failure", "fail_fast_group", "concurrency_group", "timeout_secs", "env", "secrets"]

def Stage.decode? (d : δ) : Option Stage :=
  match fields? Stage.fieldNames d with
  | some [name, description, run, shell, dependsOn, inputs, outputs, conditions, onFailure,
      allowFailure, failFastGroup, concurrencyGroup, timeoutSecs, env, secrets] => do
    let name ← required Source.text? name
    let description ← optionalField Source.text? description
    let run ← required Source.command? run
    let shell ← optionalField Source.text? shell
    let dependsOn ← withDefault [] texts dependsOn
    let inputs ← withDefault ∅ (dictOf outputRef) inputs
    let outputs ← withDefault [] texts outputs
    let conditions ← withDefault {} Conditions.decode? conditions
    let onFailure ← withDefault .propagate policy onFailure
    let allowFailure ← withDefault false Source.flag? allowFailure
    let failFastGroup ← optionalField Source.text? failFastGroup
    let concurrencyGroup ← optionalField Source.text? concurrencyGroup
    let timeoutSecs ← optionalField Source.count? timeoutSecs
    let env ← withDefault ∅ (dictOf Source.text?) env
    let secrets ← withDefault [] texts secrets
    return { name, description, run, shell, dependsOn, inputs, outputs, conditions, onFailure,
             allowFailure, failFastGroup, concurrencyGroup, timeoutSecs, env, secrets }
  | _ => none

def Pipeline.fieldNames : List String :=
  ["version", "name", "description", "settings", "env", "stages"]

def Pipeline.decode? (d : δ) : Option Pipeline :=
  match fields? Pipeline.fieldNames d with
  | some [version, name, description, settings, env, stages] => do
    let version ← withDefault "1" Source.text? version
    let name ← required Source.text? name
    let description ← optionalField Source.text? description
    let settings ← withDefault {} Settings.decode? settings
    let env ← withDefault ∅ (dictOf Source.text?) env
    let stages ← required (listOf Stage.decode?) stages
    return { version, name, description, settings, env, stages }
  | _ => none

end Reading

/-! ## Writing -/

def Command.toJson : Command → Json
  | .script text => .str text
  | .argv words => Json.strings words

def Dict.toJson (d : Dict String) : Json := .obj (d.entries.map fun (k, v) => (k, .str v))

def Settings.toJson (s : Settings) : Json :=
  .obj [("max_parallel", Json.opt Json.count s.maxParallel),
    ("timeout_secs", Json.opt Json.count s.timeoutSecs),
    ("cancel_grace_secs", Json.count s.cancelGraceSecs),
    ("fail_fast", .bool s.failFast),
    ("shell", .str s.shell)]

def Conditions.toJson (c : Conditions) : Json :=
  .obj [("events", .arr (c.events.map fun e => .str e.name)),
    ("branches", Json.strings c.branches),
    ("branches_ignore", Json.strings c.branchesIgnore),
    ("if", Json.opt .str c.expression)]

def Stage.toJson (s : Stage) : Json :=
  .obj [("name", .str s.name),
    ("description", Json.opt .str s.description),
    ("run", s.run.toJson),
    ("shell", Json.opt .str s.shell),
    ("depends_on", Json.strings s.dependsOn),
    ("inputs", .obj (s.inputs.entries.map fun (k, r) => (k, .str r.text))),
    ("outputs", Json.strings s.outputs),
    ("when", s.conditions.toJson),
    ("on_failure", .str s.onFailure.name),
    ("allow_failure", .bool s.allowFailure),
    ("fail_fast_group", Json.opt .str s.failFastGroup),
    ("concurrency_group", Json.opt .str s.concurrencyGroup),
    ("timeout_secs", Json.opt Json.count s.timeoutSecs),
    ("env", s.env.toJson),
    ("secrets", Json.strings s.secrets)]

def Pipeline.toJson (p : Pipeline) : Json :=
  .obj [("version", .str p.version),
    ("name", .str p.name),
    ("description", Json.opt .str p.description),
    ("settings", p.settings.toJson),
    ("env", p.env.toJson),
    ("stages", .arr (p.stages.map Stage.toJson))]

end Conveyor
