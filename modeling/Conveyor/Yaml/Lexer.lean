import Conveyor.Yaml.Token

/-!
# Conveyor.Yaml.Lexer

From a YAML text to its tokens.

Blocks are found by indentation: a block opens where an entry or a key stands further right than
the block around it, and closes where something stands further left. Whether a node is a key
shows only at the colon after it. So the lexer leaves a mark in front of every node that could
be a key, and fills it in when it meets the colon on the same line; marks that stay open read as
nothing.

* `Lexer`      — the state: the place, the open blocks and brackets, the marks, the tokens.
* `Lexer.next` — reads one token.
* `tokens?`    — all tokens of a text, unless it is malformed.
-/

namespace Conveyor
namespace Yaml

/-- A token, or a mark in front of a node that could be a key. -/
inductive Slot where
  | token (t : Token)
  | mark (id : Nat)

/-- A mark whose colon may still come. A required one must get it. -/
structure OpenMark where
  id : Nat
  line : Nat
  column : Nat
  required : Bool

structure Lexer where
  cursor : Cursor
  /-- The indentation of the innermost block, -1 outside of all. -/
  indent : Int := -1
  /-- The indentations of the blocks around it. -/
  indents : List Int := []
  /-- For each open bracket the mark before it; the head belongs to the innermost level. -/
  marks : List (Option OpenMark) := [none]
  /-- A node that starts here could be a key. -/
  keyAllowed : Bool := true
  /-- The slots so far, in reverse. -/
  slots : List Slot := []
  /-- The marks that are keys; `true` where a mapping starts with the key. -/
  keys : List (Nat × Bool) := []
  nextId : Nat := 0

namespace Lexer

def inFlow (l : Lexer) : Bool := 1 < l.marks.length

def push (l : Lexer) (t : Token) : Lexer := { l with slots := .token t :: l.slots }

/-- Pushes a token that is as long as `width` characters. -/
def pushSkip (l : Lexer) (t : Token) (width : Nat) : Lexer :=
  { l.push t with cursor := l.cursor.skip width }

/-! ## Marks -/

/-- Gives up the mark of the innermost level, unless it is required. -/
def dropMark (l : Lexer) : Option Lexer :=
  match l.marks with
  | some m :: rest => if m.required then none else some { l with marks := none :: rest }
  | _ => some l

def mark (l : Lexer) : Option Lexer :=
  if l.keyAllowed then
    match l.dropMark with
    | none => none
    | some l =>
      let m : OpenMark :=
        { id := l.nextId, line := l.cursor.line, column := l.cursor.column
          required := !l.inFlow && l.indent = l.cursor.column }
      some { l with
        marks := some m :: l.marks.drop 1
        slots := .mark l.nextId :: l.slots
        nextId := l.nextId + 1 }
  else some l

/-- A key ends on its line and is no longer than 1024 characters. -/
def isStale (c : Cursor) (m : OpenMark) : Bool :=
  m.line < c.line || m.column + 1024 < c.column

/-- Gives up all marks whose colon comes too late. -/
def dropStale (c : Cursor) : List (Option OpenMark) → Option (List (Option OpenMark))
  | [] => some []
  | none :: rest => (dropStale c rest).map (none :: ·)
  | some m :: rest =>
    if isStale c m then
      if m.required then none else (dropStale c rest).map (none :: ·)
    else (dropStale c rest).map (some m :: ·)

/-! ## Blocks -/

/-- Opens a block at a column, if it stands further right. Answers also whether it does. -/
def roll (l : Lexer) (column : Nat) : Lexer × Bool :=
  if !l.inFlow && l.indent < column then
    ({ l with indents := l.indent :: l.indents, indent := column }, true)
  else (l, false)

def rollWith (l : Lexer) (t : Token) : Lexer :=
  match l.roll l.cursor.column with
  | (l, true) => l.push t
  | (l, false) => l

def unrollFrom (column : Int) : List Int → Lexer → Lexer
  | [], l => l
  | i :: rest, l =>
    if column < l.indent then
      unrollFrom column rest { l.push .blockEnd with indent := i, indents := rest }
    else l

def unroll (l : Lexer) (column : Int) : Lexer :=
  if l.inFlow then l else unrollFrom column l.indents l

/-! ## Between tokens -/

/-- Goes on over blanks, comments and line breaks. Tabs do not count as blanks where a key could
start. -/
def skipSpacing : Nat → Lexer → Lexer
  | 0, l => l
  | fuel + 1, l =>
    let c := l.cursor
    let c := if c.line = 0 ∧ c.column = 0 ∧ c.peek = some byteOrderMark then c.skip 1 else c
    let tabs := l.inFlow || !l.keyAllowed
    let c := c.skipWhile fun d => d = ' ' || (tabs && d = '\t')
    let c := if c.peek = some '#' then c.skipLine else c
    match c.newline? with
    | some (_, c) =>
      skipSpacing fuel { l with cursor := c, keyAllowed := l.keyAllowed || !l.inFlow }
    | none => { l with cursor := c }

/-! ## Tokens -/

/-- A token that ends all blocks and stands at the start of a line. -/
def readMarker (l : Lexer) (t : Token) : Option Lexer :=
  match (l.unroll (-1)).dropMark with
  | none => none
  | some l => some ({ l with keyAllowed := false }.pushSkip t 3)

def readDirectiveToken (l : Lexer) : Option Lexer :=
  match (l.unroll (-1)).dropMark with
  | none => none
  | some l =>
    (readDirective l.cursor).map fun (t, cursor) => { l.push t with cursor, keyAllowed := false }

def openFlow (l : Lexer) (t : Token) : Option Lexer :=
  l.mark.map fun l => { l with marks := none :: l.marks, keyAllowed := true }.pushSkip t 1

def closeFlow (l : Lexer) (t : Token) : Option Lexer :=
  l.dropMark.map fun l =>
    { l with
      marks := if l.inFlow then l.marks.drop 1 else l.marks
      keyAllowed := false }.pushSkip t 1

def readFlowEntry (l : Lexer) : Option Lexer :=
  l.dropMark.map fun l => { l with keyAllowed := true }.pushSkip .flowEntry 1

def readBlockEntry (l : Lexer) : Option Lexer :=
  if !l.inFlow && !l.keyAllowed then none
  else
    (l.rollWith .blockSequenceStart).dropMark.map fun l =>
      { l with keyAllowed := true }.pushSkip .blockEntry 1

def readKey (l : Lexer) : Option Lexer :=
  if !l.inFlow && !l.keyAllowed then none
  else
    (l.rollWith .blockMappingStart).dropMark.map fun l =>
      { l with keyAllowed := !l.inFlow }.pushSkip .key 1

/-- The colon before a value. The mark of this level, if there is one, is a key. -/
def readValue (l : Lexer) : Option Lexer :=
  match l.marks with
  | some m :: rest =>
    let (l, starts) := { l with marks := none :: rest }.roll m.column
    some ({ l with keys := (m.id, starts) :: l.keys, keyAllowed := false }.pushSkip .value 1)
  | _ =>
    if !l.inFlow && !l.keyAllowed then none
    else some ({ l.rollWith .blockMappingStart with keyAllowed := !l.inFlow }.pushSkip .value 1)

def readAnchorToken (l : Lexer) (make : String → Token) : Option Lexer :=
  match l.mark with
  | none => none
  | some l =>
    (readAnchorName l.cursor).map fun (name, cursor) =>
      { l.push (make name) with cursor, keyAllowed := false }

def readTagToken (l : Lexer) : Option Lexer :=
  match l.mark with
  | none => none
  | some l =>
    (readTag l.inFlow l.cursor).map fun (t, cursor) =>
      { l.push t with cursor, keyAllowed := false }

def readBlockScalar (l : Lexer) (literal : Bool) : Option Lexer :=
  match l.dropMark with
  | none => none
  | some l =>
    (readBlock literal l.indent l.cursor).map fun (text, cursor) =>
      { l.push (.scalar (if literal then .literal else .folded) text) with
        cursor, keyAllowed := true }

def readQuotedScalar (l : Lexer) (single : Bool) : Option Lexer :=
  match l.mark with
  | none => none
  | some l =>
    (readQuoted single l.cursor).map fun (text, cursor) =>
      { l.push (.scalar (if single then .singleQuoted else .doubleQuoted) text) with
        cursor, keyAllowed := false }

def readPlainScalar (l : Lexer) : Option Lexer :=
  match l.mark with
  | none => none
  | some l =>
    (readPlain l.inFlow l.indent l.cursor).map fun (text, broken, cursor) =>
      { l.push (.scalar .plain text) with cursor, keyAllowed := broken }

def isIndicator (c : Char) : Bool :=
  "-?:,[]\x7b\x7d#&*!|>'\"%@`".toList.contains c

/-- A plain scalar starts here. A dash, a question mark or a colon starts one when a word goes
on after it, the last two not inside brackets. -/
def startsPlain (l : Lexer) (c : Char) : Bool :=
  let next := l.cursor.peekAt 1
  if c = '-' then !next.any isBlank
  else if c = '?' || c = ':' then !l.inFlow && !isSpacingOrEnd next
  else !isSpacing c && !isIndicator c

/-- Reads the token at a character that is neither blank nor a break. -/
def readAt (l : Lexer) (c : Char) : Option Lexer :=
  let ends := isSpacingOrEnd (l.cursor.peekAt 1)
  if l.cursor.column = 0 && c = '%' then l.readDirectiveToken
  else if l.cursor.atMarker '-' then l.readMarker .documentStart
  else if l.cursor.atMarker '.' then l.readMarker .documentEnd
  else if c = '[' then l.openFlow .flowSequenceStart
  else if c = '\x7b' then l.openFlow .flowMappingStart
  else if c = ']' then l.closeFlow .flowSequenceEnd
  else if c = '\x7d' then l.closeFlow .flowMappingEnd
  else if c = ',' then l.readFlowEntry
  else if c = '-' && ends then l.readBlockEntry
  else if c = '?' && (l.inFlow || ends) then l.readKey
  else if c = ':' && (l.inFlow || ends) then l.readValue
  else if c = '*' then l.readAnchorToken .alias
  else if c = '&' then l.readAnchorToken .anchor
  else if c = '!' then l.readTagToken
  else if c = '|' && !l.inFlow then l.readBlockScalar true
  else if c = '>' && !l.inFlow then l.readBlockScalar false
  else if c = '\'' then l.readQuotedScalar true
  else if c = '"' then l.readQuotedScalar false
  else if l.startsPlain c then l.readPlainScalar
  else none

def finish (l : Lexer) : Option Lexer := (l.unroll (-1)).dropMark

/-- Reads tokens up to the end, as far as the fuel goes: one for every character. -/
def run : Nat → Lexer → Option Lexer
  | 0, _ => none
  | fuel + 1, l =>
    let l := skipSpacing (l.cursor.rest.length + 1) l
    match dropStale l.cursor l.marks with
    | none => none
    | some marks =>
      let l := { l with marks }.unroll l.cursor.column
      match l.cursor.peek with
      | none => l.finish
      | some c =>
        match l.readAt c with
        | none => none
        | some l => run fuel l

/-- The tokens of slots in reverse; marks read as what was found out about them. -/
def resolve (keys : List (Nat × Bool)) (acc : List Token) : List Slot → List Token
  | [] => acc
  | .token t :: rest => resolve keys (t :: acc) rest
  | .mark id :: rest =>
    match keys.lookup id with
    | none => resolve keys acc rest
    | some true => resolve keys (.blockMappingStart :: .key :: acc) rest
    | some false => resolve keys (.key :: acc) rest

end Lexer

def tokens? (text : String) : Option (List Token) :=
  let cs := text.toList
  if cs.all isAllowed then
    (Lexer.run (cs.length + 2) { cursor := { rest := cs } }).map fun l =>
      Lexer.resolve l.keys [] l.slots
  else none

end Yaml
end Conveyor
