import Conveyor.Json.Reader
import Conveyor.Pipeline.Schema

/-!
# Conveyor.Json.Source

JSON as a format of definitions. Every demand is met by one shape only, except that a record
may also be an array of its fields in order, and an alternative an object with one `null`.

* `Pipeline.ofJson?` — the definition that a JSON text describes.
-/

namespace Conveyor
namespace Json

def asCommand? : Json → Option Command
  | .str s => some (.script s)
  | .arr items => (Schema.mapAll asStr? items).map .argv
  | _ => none

def asCount? : Json → Option UInt64
  | .int n => if 0 ≤ n ∧ n < UInt64.size then some (UInt64.ofNat n.toNat) else none
  | _ => none

def asRecord? (width : Nat) : Json → Option (List (String × Json) ⊕ List Json)
  | .obj fields => some (.inl fields)
  | .arr items => if items.length ≤ width then some (.inr items) else none
  | _ => none

def asVariant? : Json → Option String
  | .str s => some s
  | .obj [(name, .null)] => some name
  | _ => none

def asOptional? : Json → Option (Option Json)
  | .null => some none
  | j => some (some j)

instance : Source Json where
  text? := asStr?
  flag? := asBool?
  count? := asCount?
  optional? := asOptional?
  list? := asArr?
  table? := asObj?
  record? := asRecord?
  variant? := asVariant?
  command? := asCommand?

end Json

def Pipeline.ofJson? (text : String) : Option Pipeline :=
  match Json.parse? text with
  | none => none
  | some j => Pipeline.decode? j

end Conveyor
