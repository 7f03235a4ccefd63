import Conveyor.Pipeline.Basic

/-!
# Conveyor.CommandLine.Request

What a user asks for on the command line, and how a command line can be unusable.

* `Request`    — one of the four verbs with its arguments.
* `Invocation` — a request with the options of all verbs.
* `Refusal`    — why there is no invocation; `Refusal.exitCode` says how the process ends.
-/

namespace Conveyor
namespace CommandLine

def defaultPipeline : String := ".pipeflow.yaml"

inductive GraphFormat where
  | text
  | dot
  | mermaid
  deriving DecidableEq, Repr, Inhabited

namespace GraphFormat

def ofName? (name : String) : Option GraphFormat :=
  match name with
  | "text" => some .text
  | "dot" => some .dot
  | "mermaid" => some .mermaid
  | _ => none

end GraphFormat

structure RunArgs where
  pipeline : String := defaultPipeline
  event : EventKind := .push
  ref : String := "main"
  dryRun : Bool := false
  maxParallel : Option Nat := none
  report : Option String := none
  noProgress : Bool := false
  deriving DecidableEq, Repr, Inhabited

inductive Request where
  | init (name template : Option String) (force : Bool)
  | run (args : RunArgs)
  | validate (pipeline : String)
  | graph (pipeline : String) (format : GraphFormat)
  deriving DecidableEq, Repr, Inhabited

structure Invocation where
  request : Request
  verbose : Bool := false
  directory : Option String := none
  deriving DecidableEq, Repr, Inhabited

/-- Why a command line gives no invocation. -/
inductive Refusal where
  | help
  | version
  | nothing
  | missingVerb
  | unknownVerb
  | unknownArgument
  /-- An option that is used once at most is repeated. -/
  | conflict
  /-- A value is missing, or it is none of the possible ones. -/
  | invalidValue
  /-- A value cannot be read. -/
  | unreadableValue
  /-- A switch has a value. -/
  | unneededValue
  deriving DecidableEq, Repr, Inhabited

def Refusal.message : Refusal → String
  | .help | .nothing | .missingVerb =>
    "Usage: pipeflow [OPTIONS] <COMMAND>\n\nCommands: init, run, validate, graph, help"
  | .version => "pipeflow"
  | .unknownVerb => "unrecognized subcommand"
  | .unknownArgument => "unexpected argument"
  | .conflict => "an argument cannot be used multiple times"
  | .invalidValue => "a value is missing or not a possible value"
  | .unreadableValue => "invalid value"
  | .unneededValue => "unexpected value"

/-- Help and version are what the user wanted; all else is an error in usage. -/
def Refusal.exitCode : Refusal → Nat
  | .help | .version => 0
  | _ => 2

end CommandLine
end Conveyor
