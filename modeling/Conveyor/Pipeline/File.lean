import Conveyor.Error
import Conveyor.Json.Source
import Conveyor.Toml.Source
import Conveyor.Workspace
import Conveyor.Yaml.Source

/-!
# Conveyor.Pipeline.File

Reading a pipeline from a file. The extension of its name says the format: `json` or `toml` in
just these letters, and YAML for everything else.

* `Format.ofPath`    — the format of a file.
* `Pipeline.load`    — the pipeline in a file, or the error.
-/

namespace Conveyor
namespace Pipeline

inductive Format where
  | json
  | yaml
  | toml
  deriving DecidableEq, Repr, Inhabited

namespace Format

/-- The last name of a written path, if it is the name of a file. -/
def fileName? (path : String) : Option (List Char) :=
  let names := (Text.splitOn '/' path.toList).filter fun n => !n.isEmpty && n ≠ ['.']
  match names.getLast? with
  | some ['.', '.'] => none
  | other => other

/-- What follows the last point of a name. A name that only starts with a point has none. -/
def extension? (name : List Char) : Option (List Char) :=
  let ending := name.reverse.takeWhile (· ≠ '.')
  if ending.length + 1 < name.length then some ending.reverse else none

def ofPath (path : String) : Format :=
  match (fileName? path).bind extension? with
  | some ['j', 's', 'o', 'n'] => .json
  | some ['t', 'o', 'm', 'l'] => .toml
  | _ => .yaml

end Format

/-- The definition in a text. What readers say about a text that they refuse is left open. -/
def ofText (f : Format) (text : String) : Except Error Pipeline :=
  let unreadable := "unreadable"
  match f with
  | .json => (ofJson? text).elim (.error (.json unreadable)) .ok
  | .yaml => (ofYaml? text).elim (.error (.yaml unreadable)) .ok
  | .toml => (ofToml? text).elim (.error (.toml unreadable)) .ok

def load (w : Workspace) (folder : Path) (path : String) : Except Error Pipeline :=
  if (w.entryAt? folder path).isNone then .error (.pipelineNotFound path)
  else
    match w.readText folder path with
    | .error f => .error (.fileReadError path f.message)
    | .ok text => ofText (Format.ofPath path) text

end Pipeline
end Conveyor
