/-!
# Conveyor.Json.Basic

JSON values. Objects keep the order and the repetitions of their fields, because readers of
definitions decide for themselves what a repeated field means.

* `Json`        — the values.
* `Json.field?` — a field of an object, the last of that name.
-/

namespace Conveyor

/-- A JSON value. A number with a fraction, an exponent or a negative zero is kept as it is
written; only other integers are numbers with a value here. -/
inductive Json where
  | null
  | bool (b : Bool)
  | int (n : Int)
  | decimal (written : String)
  | str (s : String)
  /-- A string whose escapes spell half of a surrogate pair: it can be passed over, not read. -/
  | halfPair
  | arr (items : List Json)
  | obj (fields : List (String × Json))
  deriving Inhabited, Repr

namespace Json

def nat (n : Nat) : Json := .int n

def opt {α : Type} (f : α → Json) : Option α → Json
  | none => .null
  | some a => f a

def strings (l : List String) : Json := .arr (l.map .str)

/-- The value of the last field of that name. -/
def field? (j : Json) (name : String) : Option Json :=
  match j with
  | .obj fields => fields.reverse.lookup name
  | _ => none

def asStr? : Json → Option String
  | .str s => some s
  | _ => none

def asBool? : Json → Option Bool
  | .bool b => some b
  | _ => none

def asInt? : Json → Option Int
  | .int n => some n
  | _ => none

def asNat? : Json → Option Nat
  | .int n => n.toNat?
  | _ => none

def asArr? : Json → Option (List Json)
  | .arr items => some items
  | _ => none

def asObj? : Json → Option (List (String × Json))
  | .obj fields => some fields
  | _ => none

end Json
end Conveyor
