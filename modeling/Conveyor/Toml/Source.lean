import Conveyor.Pipeline.Schema
import Conveyor.Toml.Reader

/-!
# Conveyor.Toml.Source

TOML as a format of definitions.

* `Pipeline.ofToml?` — the definition that a TOML text describes.

A record may also be an array of its fields in order, with more items than fields. A name may
also be the one key of a table, over an empty table or array. A date or time counts as a table
with its text under `datetimeKey`.
-/

namespace Conveyor
namespace Toml
namespace Value

def datetimeKey : String := "$__toml_private_datetime"

def asText? : Value → Option String
  | .string s => some s
  | _ => none

def asFlag? : Value → Option Bool
  | .boolean b => some b
  | _ => none

def asCount? : Value → Option UInt64
  | .integer n => if 0 ≤ n then some (UInt64.ofNat n.toNat) else none
  | _ => none

def asList? : Value → Option (List Value)
  | .array items => some items
  | .tables items => some items
  | _ => none

def asTable? : Value → Option (List (String × Value))
  | .table _ entries => some entries
  | .datetime written => some [(datetimeKey, .string written)]
  | _ => none

def asRecord? (v : Value) : Option (List (String × Value) ⊕ List Value) :=
  match v.asTable?, v.asList? with
  | some entries, _ => some (.inl entries)
  | none, some items => some (.inr items)
  | none, none => none

def isEmpty : Value → Bool
  | .array items => items.isEmpty
  | .tables items => items.isEmpty
  | .table _ entries => entries.isEmpty
  | _ => false

def asVariant? : Value → Option String
  | .string s => some s
  | .table _ [(name, v)] => if v.isEmpty then some name else none
  | _ => none

def asCommand? (v : Value) : Option Command :=
  match v with
  | .string s => some (.script s)
  | v => (v.asList?.bind (Schema.mapAll asText?)).map .argv

end Value

instance : Source Value where
  text? := Value.asText?
  flag? := Value.asFlag?
  count? := Value.asCount?
  optional? v := some (some v)
  list? := Value.asList?
  table? := Value.asTable?
  record? _ := Value.asRecord?
  variant? := Value.asVariant?
  command? := Value.asCommand?

end Toml

def Pipeline.ofToml? (text : String) : Option Pipeline :=
  match Toml.parse text with
  | none => none
  | some root => Pipeline.decode? root

end Conveyor
