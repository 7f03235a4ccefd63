import Conveyor.Error
import Conveyor.Text.Search

/-!
# Conveyor.Advice

Concrete next steps for some of the errors.

* `Advice.for?` — the advice on an error, if there is one.
* `Advice.text` — its printed form: the action, the steps, and the commands after an empty line.
-/

namespace Conveyor

structure Advice where
  action : String
  steps : List String := []
  commands : List String := []
  deriving DecidableEq, Repr

namespace Advice

def removeCycle (stages : List String) : Advice where
  action := "Remove cyclic dependency"
  steps := ["Detected cycle: " ++ " → ".intercalate stages,
    "Input references ('inputs') add dependencies just like 'depends_on'",
    "Ensure stages form a directed acyclic graph (DAG)"]
  commands := ["# Visualize your pipeline:", "pipeflow graph --format mermaid"]

def createPipeline : Advice where
  action := "Create a pipeline definition"
  steps := ["No .pipeflow.yaml found in current directory"]
  commands := ["pipeflow init", "", "# Or start from the release template:",
    "pipeflow init --template release"]

def raiseTimeout (stage : String) (seconds : Nat) : Advice where
  action := "Stage '" ++ stage ++ "' exceeded " ++ toString seconds ++ "s"
  steps := ["Set 'timeout_secs' on the stage, or 'settings.timeout_secs' for all stages"]

/-- The producer and the key of a reference; a reference without a point names only a
producer. -/
def splitReference (reference : String) : String × String :=
  match Text.splitOnce '.' reference.toList with
  | some (producer, key) => (String.ofList producer, String.ofList key)
  | none => (reference, "")

def declareOutput (stage reference : String) : Advice :=
  let (producer, key) := splitReference reference
  { action := "Declare output '" ++ key ++ "' on stage '" ++ producer ++ "'"
    steps := ["Stage '" ++ stage ++ "' reads '" ++ reference ++ "'",
      "Add '" ++ key ++ "' to the 'outputs' list of '" ++ producer ++ "'",
      "The producer publishes it by printing '::set-output name=<key>::<value>'"] }

def provideSecret (stage name : String) : Advice where
  action := "Provide secret '" ++ name ++ "'"
  steps := ["Stage '" ++ stage ++ "' acquires '" ++ name ++ "' from the environment when it starts"]
  commands := ["export " ++ name ++ "=..."]

def mendYaml : Advice where
  action := "Fix YAML syntax error"
  steps := ["Check for common YAML issues:",
    "  • Incorrect indentation (use spaces, not tabs)",
    "  • Missing colons after keys",
    "  • Unquoted glob patterns starting with '*'"]
  commands := ["pipeflow validate"]

def for? : Error → Option Advice
  | .cyclicDependency stages => some (removeCycle stages)
  | .pipelineNotFound _ => some createPipeline
  | .timeout stage millis => some (raiseTimeout stage (Error.wholeSeconds millis))
  | .unknownOutput stage reference => some (declareOutput stage reference)
  | .secretUnavailable stage name => some (provideSecret stage name)
  | .yaml _ => some mendYaml
  | _ => none

def indented (line : String) : String := "  " ++ line ++ "\n"

def text (a : Advice) : String :=
  "→ " ++ a.action ++ "\n" ++ String.join (a.steps.map indented) ++
    (if a.commands.isEmpty then "" else "\n" ++ String.join (a.commands.map indented))

end Advice
end Conveyor
