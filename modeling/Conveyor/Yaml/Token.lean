import Conveyor.Yaml.ScalarText

/-!
# Conveyor.Yaml.Token

The tokens of YAML texts, and the readers of those that are more than one character: directives,
anchors, aliases and tags.
-/

namespace Conveyor
namespace Yaml

inductive ScalarStyle where
  | plain
  | singleQuoted
  | doubleQuoted
  | literal
  | folded
  deriving DecidableEq, Repr

inductive Token where
  | versionDirective (major minor : Nat)
  | tagDirective (handle lead : String)
  | documentStart
  | documentEnd
  | blockSequenceStart
  | blockMappingStart
  | blockEnd
  | flowSequenceStart
  | flowSequenceEnd
  | flowMappingStart
  | flowMappingEnd
  | blockEntry
  | flowEntry
  | key
  | value
  | alias (name : String)
  | anchor (name : String)
  | tag (handle suffix : String)
  | scalar (style : ScalarStyle) (text : String)
  deriving DecidableEq, Repr

/-! ## Names -/

def endsName (c : Option Char) : Bool :=
  match c with
  | none => true
  | some c => isSpacing c || "?:,]\x7d%@`".toList.contains c

def readAnchorName (c : Cursor) : Option (String × Cursor) :=
  let c := c.skip 1
  let name := c.takeWhile isNameChar
  let c := c.skip name.length
  if name.isEmpty || !endsName c.peek then none else some (String.ofList name, c)

/-! ## Tags -/

/-- The characters of a tag's address; commas and brackets only between angle brackets. -/
def isTagChar (verbatim : Bool) (c : Char) : Bool :=
  isNameChar c || ";/?:@&=+$.%!~*'()".toList.contains c ||
    (verbatim && ",[]".toList.contains c)

/-- The number of bytes of a character from its first byte in UTF-8. -/
def utf8Width (byte : Nat) : Nat :=
  if byte < 0x80 then 1
  else if 0xC0 ≤ byte ∧ byte < 0xE0 then 2
  else if 0xE0 ≤ byte ∧ byte < 0xF0 then 3
  else if 0xF0 ≤ byte ∧ byte < 0xF8 then 4
  else 0

def readEscapedBytes : Nat → List Char → Option (List Nat)
  | 0, _ => some []
  | n + 1, '%' :: a :: b :: cs =>
    match Text.hexValue? a, Text.hexValue? b with
    | some a, some b => (readEscapedBytes n cs).map ((16 * a + b) :: ·)
    | _, _ => none
  | _ + 1, _ => none

def charOfBytes : List Nat → Option Char
  | [] => none
  | [b] => some (Char.ofNat b)
  | b :: rest =>
    if rest.all (fun r => 0x80 ≤ r && r < 0xC0) then
      let first := b % Nat.pow 2 (7 - (rest.length + 1))
      let n := rest.foldl (fun n r => 64 * n + r % 64) first
      if n.isValidChar then some (Char.ofNat n) else none
    else none

/-- A character written as escaped bytes, and the length of its form. -/
def readEscapedChar (s : List Char) : Option (Char × Nat) :=
  match readEscapedBytes 1 s with
  | some [b] =>
    match readEscapedBytes (utf8Width b) s with
    | some bytes => (charOfBytes bytes).map fun c => (c, 3 * bytes.length)
    | none => none
  | _ => none

/-- The address of a tag; `acc` is in reverse. -/
def readAddress (verbatim : Bool) : Nat → List Char → Cursor → Option (List Char × Cursor)
  | 0, _, _ => none
  | fuel + 1, acc, c =>
    match c.peek with
    | some d =>
      if d = '%' then
        match readEscapedChar c.rest with
        | some (e, width) => readAddress verbatim fuel (e :: acc) (c.skip width)
        | none => none
      else if isTagChar verbatim d then readAddress verbatim fuel (d :: acc) (c.skip 1)
      else some (acc.reverse, c)
    | none => some (acc.reverse, c)

def readFullAddress (verbatim : Bool) (head : List Char) (c : Cursor) :
    Option (String × Cursor) :=
  match readAddress verbatim (c.rest.length + 1) [] c with
  | none => none
  | some (address, c) =>
    if head.isEmpty && address.isEmpty then none
    else some (String.ofList (head.drop 1 ++ address), c)

/-- A handle: `!`, letters, and `!` once more if it is there. -/
def readHandle (c : Cursor) : Option (List Char × Cursor) :=
  if c.peek = some '!' then
    let name := (c.skip 1).takeWhile isNameChar
    let c := c.skip (1 + name.length)
    if c.peek = some '!' then some ('!' :: (name ++ ['!']), c.skip 1) else some ('!' :: name, c)
  else none

/-- A tag: an address between angle brackets, a handle with an address, or an address alone. -/
def readTag (inFlow : Bool) (c : Cursor) : Option (Token × Cursor) := do
  let (token, c) ←
    if c.peekAt 1 = some '<' then
      let (address, c) ← readFullAddress true [] (c.skip 2)
      if c.peek = some '>' then some (Token.tag "" address, c.skip 1) else none
    else
      let (handle, c) ← readHandle c
      if 1 < handle.length ∧ handle.getLast? = some '!' then
        let (address, c) ← readFullAddress false [] c
        some (Token.tag (String.ofList handle) address, c)
      else
        let (address, c) ← readFullAddress false handle c
        some (if address.isEmpty then Token.tag "" "!" else Token.tag "!" address, c)
  if isSpacingOrEnd c.peek || (inFlow && c.peek = some ',') then some (token, c) else none

/-! ## Directives -/

def readVersionNumber (c : Cursor) : Option (Nat × Cursor) :=
  let digits := c.takeWhile Char.isDigit
  if digits.isEmpty || 9 < digits.length then none
  else some (Json.natOfDigits digits, c.skip digits.length)

def readVersion (c : Cursor) : Option (Token × Cursor) := do
  let (major, c) ← readVersionNumber (c.skipWhile isBlank)
  if c.peek = some '.' then
    let (minor, c) ← readVersionNumber (c.skip 1)
    some (.versionDirective major minor, c)
  else none

/-- The handle that a directive declares, and what it stands for. -/
def readTagDeclaration (c : Cursor) : Option (Token × Cursor) := do
  let (handle, c) ← readHandle (c.skipWhile isBlank)
  if handle.getLast? = some '!' ∧ c.peek.any isBlank then
    let (lead, c) ← readFullAddress true [] (c.skipWhile isBlank)
    if isSpacingOrEnd c.peek then some (.tagDirective (String.ofList handle) lead, c) else none
  else none

/-- A directive with the rest of its line. -/
def readDirective (c : Cursor) : Option (Token × Cursor) := do
  let c := c.skip 1
  let name := c.takeWhile isNameChar
  let c := c.skip name.length
  if name.isEmpty || !isSpacingOrEnd c.peek then none
  else
    let (token, c) ←
      match String.ofList name with
      | "YAML" => readVersion c
      | "TAG" => readTagDeclaration c
      | _ => none
    let c := c.skipWhile isBlank
    let c := if c.peek = some '#' then c.skipLine else c
    match c.newline? with
    | some (_, c) => some (token, c)
    | none => if c.rest.isEmpty then some (token, c) else none

end Yaml
end Conveyor
