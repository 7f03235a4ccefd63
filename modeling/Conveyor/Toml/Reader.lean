import Conveyor.Toml.Scalar

/-!
# Conveyor.Toml.Reader

Reading TOML documents.

* `Toml.readValue` — any value.
* `Toml.parse`     — the root table of a document.

Values nest less than `depthLimit` deep, and keys have fewer parts.
-/

namespace Conveyor
namespace Toml

def depthLimit : Nat := 80

def skipComment : List Char → List Char
  | '#' :: rest => rest.dropWhile isTextChar
  | s => s

def skipFiller : Nat → List Char → List Char
  | 0, s => s
  | fuel + 1, s =>
    match afterBreak? (skipComment (skipBlanks s)) with
    | some rest => skipFiller fuel rest
    | none => skipBlanks s

/-! ## Keys -/

def isBareKeyChar (c : Char) : Bool := c.isAlphanum || c = '_' || c = '-'

def readSimpleKey (s : List Char) : Option (String × List Char) :=
  match s with
  | [] => none
  | c :: rest =>
    if c = '"' ∨ c = '\'' then readLine c (rest.length + 1) [] rest
    else
      let key := (c :: rest).takeWhile isBareKeyChar
      if key.isEmpty then none else some (String.ofList key, (c :: rest).drop key.length)

def readKeys : Nat → List Char → Option (List String × List Char)
  | 0, _ => none
  | fuel + 1, s =>
    match readSimpleKey (skipBlanks s) with
    | none => none
    | some (key, rest) =>
      match skipBlanks rest with
      | '.' :: rest => (readKeys fuel rest).map fun (keys, rest) => (key :: keys, rest)
      | rest => some ([key], rest)

/-- A path of keys: all but the last one, and the last. -/
def readPath (s : List Char) : Option (List String × String × List Char) :=
  match readKeys (s.length + 1) s with
  | none => none
  | some (keys, rest) =>
    if keys.length < depthLimit then keys.getLast?.map fun last => (keys.dropLast, last, rest)
    else none

/-! ## Values -/

mutual

def readValue : Nat → Nat → List Char → Option (Value × List Char)
  | 0, _, _ => none
  | _ + 1, _, [] => none
  | fuel + 1, depth, c :: rest =>
    if c = '"' ∨ c = '\'' then
      (readString c (c :: rest)).map fun (s, rest) => (.string s, rest)
    else if c = '[' then
      if depth + 1 < depthLimit then readItems fuel (depth + 1) [] rest else none
    else if c = '\x7b' then
      if depth + 1 < depthLimit then
        match skipBlanks rest with
        | '\x7d' :: rest => some (.table .inline [], rest)
        | _ => readEntries fuel (depth + 1) (.table .inline []) rest
      else none
    else if c.isDigit ∨ c = '+' ∨ c = '-' then readNumber (c :: rest)
    else
      match c, rest with
      | 't', 'r' :: 'u' :: 'e' :: rest => some (.boolean true, rest)
      | 'f', 'a' :: 'l' :: 's' :: 'e' :: rest => some (.boolean false, rest)
      | _, _ => readSpecial (c :: rest)

/-- The items of an array up to its end; a comma may stand after the last. -/
def readItems : Nat → Nat → List Value → List Char → Option (Value × List Char)
  | 0, _, _, _ => none
  | fuel + 1, depth, acc, s =>
    match skipFiller (s.length + 1) s with
    | ']' :: rest => some (.array acc.reverse, rest)
    | s =>
      match readValue fuel depth s with
      | none => none
      | some (v, rest) =>
        match skipFiller (rest.length + 1) rest with
        | ',' :: rest => readItems fuel depth (v :: acc) rest
        | ']' :: rest => some (.array (v :: acc).reverse, rest)
        | _ => none

/-- The entries of a table between braces up to its end. -/
def readEntries : Nat → Nat → Value → List Char → Option (Value × List Char)
  | 0, _, _, _ => none
  | fuel + 1, depth, table, s =>
    match readPath s with
    | some (path, key, '=' :: rest) =>
      match readValue fuel depth (skipBlanks rest) with
      | none => none
      | some (v, rest) =>
        match table.define? path key v with
        | none => none
        | some table =>
          match skipBlanks rest with
          | ',' :: rest => readEntries fuel depth table rest
          | '\x7d' :: rest => some (table, rest)
          | _ => none
    | _ => none

end

/-! ## Documents -/

def endLine? (s : List Char) : Option (List Char) :=
  match skipComment (skipBlanks s) with
  | [] => some []
  | rest => afterBreak? rest

/-- A document after some lines: its root, and the header that is open. -/
structure Draft where
  root : Value := .table .header []
  header : List String := []

namespace Draft

def readHeader (d : Draft) (s : List Char) : Option (Draft × List Char) :=
  match s with
  | '[' :: '[' :: rest =>
    match readPath rest with
    | some (path, key, ']' :: ']' :: rest) =>
      (d.root.append? path key).map fun root => ({ root, header := path ++ [key] }, rest)
    | _ => none
  | '[' :: rest =>
    match readPath rest with
    | some (path, key, ']' :: rest) =>
      (d.root.open? path key).map fun root => ({ root, header := path ++ [key] }, rest)
    | _ => none
  | _ => none

def readEntry (d : Draft) (s : List Char) : Option (Draft × List Char) :=
  match readPath s with
  | some (path, key, '=' :: rest) =>
    match readValue (2 * rest.length + 2) 0 (skipBlanks rest) with
    | none => none
    | some (v, rest) =>
      (d.root.defineUnder? d.header path key v).map fun root => ({ d with root }, rest)
  | _ => none

/-- Reads the lines that are left, as far as the fuel goes: one for every line. -/
def readLines : Nat → Draft → List Char → Option Draft
  | 0, _, _ => none
  | fuel + 1, d, s =>
    match skipBlanks s with
    | [] => some d
    | c :: rest =>
      let line :=
        if c = '#' ∨ c = '\n' ∨ c = '\r' then some (d, c :: rest)
        else if c = '[' then d.readHeader (c :: rest)
        else d.readEntry (c :: rest)
      match line with
      | none => none
      | some (d, rest) =>
        match endLine? rest with
        | none => none
        | some rest => readLines fuel d rest

end Draft

def parse (text : String) : Option Value :=
  let s :=
    match text.toList with
    | c :: rest => if c.toNat = 0xFEFF then rest else c :: rest
    | [] => []
  (Draft.readLines (s.length + 1) {} s).map (·.root)

end Toml
end Conveyor
