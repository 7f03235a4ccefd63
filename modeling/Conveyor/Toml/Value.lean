/-!
# Conveyor.Toml.Value

TOML values, and how lines add to a document.

* `Toml.Value`     — the values. A table remembers how it was made, because that decides who may
                     still add to it.
* `Value.define?`  — `key = value` under a path of keys.
* `Value.open?`    — the table of a header; `Value.append?` a further table of an array of tables.

Nothing is ever defined twice: each operation is `none` where it would change what is there.
-/

namespace Conveyor
namespace Toml

inductive TableForm where
  /-- Between braces. Nothing is added to it later. -/
  | inline
  /-- By a header of its own. -/
  | header
  /-- By the header of a table inside it. It may still get a header of its own. -/
  | implied
  /-- By a dotted key. -/
  | dotted
  deriving DecidableEq, Repr

inductive Value where
  | string (s : String)
  | integer (n : Int)
  | float
  | boolean (b : Bool)
  | datetime (written : String)
  | array (items : List Value)
  | table (form : TableForm) (entries : List (String × Value))
  /-- An array of tables by headers. -/
  | tables (items : List Value)
  deriving Repr, Inhabited

namespace Value

abbrev Entries := List (String × Value)

def replaceEntry (key : String) (v : Value) (entries : Entries) : Entries :=
  entries.map fun e => if e.1 = key then (key, v) else e

def modifyLast? (f : Value → Option Value) : List Value → Option (List Value)
  | [] => none
  | [v] => (f v).map ([·])
  | v :: rest => (modifyLast? f rest).map (v :: ·)

/-- Changes the table under a path of keys. Tables that are missing on the way are made; of an
array of tables the last one is meant. A dotted path goes through no table with a header of its
own. -/
def update? (dotted : Bool) (edit : TableForm → Entries → Option Entries) :
    List String → Value → Option Value
  | [], .table form entries => (edit form entries).map (.table form)
  | key :: path, .table form entries =>
    match entries.lookup key with
    | none =>
      let fresh := Value.table (if dotted then .dotted else .implied) []
      (update? dotted edit path fresh).map fun v => .table form (entries ++ [(key, v)])
    | some (.table .inline _) => none
    | some (.table inner es) =>
      if dotted && inner = .header then none
      else
        (update? dotted edit path (.table inner es)).map fun v =>
          .table form (replaceEntry key v entries)
    | some (.tables items) =>
      (modifyLast? (update? dotted edit path) items).map fun items =>
        .table form (replaceEntry key (.tables items) entries)
    | some _ => none
  | _, _ => none

/-- Adds an entry. One with a dotted key goes only into tables of dotted keys, any other only
into a table that is none. -/
def addValue? (isDotted : Bool) (key : String) (v : Value) (form : TableForm)
    (entries : Entries) : Option Entries :=
  if decide (form = .dotted) ≠ isDotted then none
  else if (entries.lookup key).isSome then none
  else some (entries ++ [(key, v)])

/-- `path.key = v` inside a table. -/
def define? (t : Value) (path : List String) (key : String) (v : Value) : Option Value :=
  update? true (addValue? (!path.isEmpty) key v) path t

def open? (root : Value) (path : List String) (key : String) : Option Value :=
  update? false (fun _ entries =>
    match entries.lookup key with
    | none => some (entries ++ [(key, .table .header [])])
    | some (.table .implied es) => some (replaceEntry key (.table .header es) entries)
    | some _ => none) path root

def append? (root : Value) (path : List String) (key : String) : Option Value :=
  update? false (fun _ entries =>
    match entries.lookup key with
    | none => some (entries ++ [(key, .tables [.table .header []])])
    | some (.tables items) =>
      some (replaceEntry key (.tables (items ++ [.table .header []])) entries)
    | some _ => none) path root

def defineUnder? (root : Value) (header path : List String) (key : String) (v : Value) :
    Option Value :=
  update? false (fun form entries =>
    match define? (.table form entries) path key v with
    | some (.table _ entries) => some entries
    | _ => none) header root

end Value
end Toml
end Conveyor
