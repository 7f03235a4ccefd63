import Conveyor.Dict
import Conveyor.Pipeline.Basic
import Conveyor.Text.Lines
import Conveyor.Text.Search

/-!
# Conveyor.Output.Marker

Values that a command publishes by printing a line `::set-output name=<key>::<value>`.

* `Marker.ofLine`  — the key and the value of a marker line.
* `Marker.collect` — all of them in a text; of two for one key the later wins.
* `Marker.declared` — those whose keys a stage declares.
-/

namespace Conveyor
namespace Marker

def isKeyChar (c : Char) : Bool := c.isAlphanum || c = '_' || c = '.' || c = '-'

def opening : List Char := "::set-output name=".toList

/-- The key and the value of a marker line: a key that is not empty, then `::`, then anything. -/
def ofLine (line : List Char) : Option (String × String) :=
  match Text.dropPrefix opening line with
  | none => none
  | some rest =>
    let key := rest.takeWhile isKeyChar
    match key, rest.dropWhile isKeyChar with
    | [], _ => none
    | key, ':' :: ':' :: value => some (String.ofList key, String.ofList value)
    | _, _ => none

/-- The markers of a text. Carriage returns at the end of a line are no part of it. -/
def collect (text : String) : Dict String :=
  Dict.ofList ((Text.lines text).filterMap fun line => ofLine (Text.dropReturns line).toList)

/-- The values whose keys the stage declares. -/
def declared (stage : Stage) (printed : Dict String) : Dict String :=
  printed.filter fun key _ => stage.outputs.contains key

end Marker
end Conveyor
