import Conveyor.Pipeline.Schema
import Conveyor.Yaml.WrittenScalar

/-!
# Conveyor.Yaml.Printer

The YAML form of a JSON value, in blocks.

* `Yaml.print`      — the document of a value.
* `Pipeline.toYaml` — the document of a definition.

An entry of a mapping is `key: value`; a long key, or one of several lines, stands behind a
question mark. The items of a sequence stand at the indentation of the mapping around it. Every
line ends with a line break.
-/

namespace Conveyor
namespace Yaml

/-- Ends the line, unless the text has ended it. -/
def endLine (s : List Char) : List Char := if s.getLast?.any isBreak then s else s ++ ['\n']

/-- The key is of one line, and not longer than 128 bytes in UTF-8. -/
def isShortKey (k : String) : Bool := !k.toList.any isBreak && k.utf8ByteSize ≤ 128

def flatChars (indent : Nat) : Json → List Char
  | .null => "null".toList
  | .bool true => "true".toList
  | .bool false => "false".toList
  | .int n => (toString n).toList
  | .decimal w => w.toList
  | .str s => writtenScalar indent s
  | .halfPair => writtenScalar indent ""
  | .arr _ => "[]".toList
  | .obj _ => "\x7b\x7d".toList

/-- The key of an entry up to the colon. -/
def keyChars (indent : Nat) (k : String) : List Char :=
  let key := writtenScalar (indent + 2) k
  if isShortKey k then key else '?' :: ' ' :: (endLine key ++ spaces indent)

mutual

/-- A value after an indicator at that indentation. A compact block starts on the same line. -/
def valueLines (indent : Nat) (compact : Bool) : Json → List Char
  | .arr (j :: rest) =>
    if compact then ' ' :: (itemLines (indent + 2) (j :: rest)).drop (indent + 2)
    else '\n' :: itemLines indent (j :: rest)
  | .obj (f :: rest) =>
    if compact then ' ' :: (entryLines (indent + 2) (f :: rest)).drop (indent + 2)
    else '\n' :: entryLines (indent + 2) (f :: rest)
  | j => ' ' :: endLine (flatChars (indent + 2) j)

def itemLines (indent : Nat) : List Json → List Char
  | [] => []
  | j :: rest => spaces indent ++ '-' :: (valueLines indent true j ++ itemLines indent rest)

def entryLines (indent : Nat) : List (String × Json) → List Char
  | [] => []
  | (k, j) :: rest =>
    spaces indent ++ keyChars indent k ++ ':' :: (valueLines indent (!isShortKey k) j
      ++ entryLines indent rest)

end

def print (j : Json) : String :=
  String.ofList (match j with
    | .arr (j :: rest) => itemLines 0 (j :: rest)
    | .obj (f :: rest) => entryLines 0 (f :: rest)
    | j => endLine (flatChars 2 j))

end Yaml

def Pipeline.toYaml (p : Pipeline) : String := Yaml.print p.toJson

end Conveyor
