import Conveyor.Json.Reader
import Conveyor.Yaml.Cursor

/-!
# Conveyor.Yaml.ScalarText

The texts of scalars, as they are spread over lines.

* `readPlain`  — a text without quotes.
* `readQuoted` — a text in single or double quotes.
* `readBlock`  — a literal or folded block, indented below its indicator.

Inside a text that goes on over several lines, a single line break reads as a blank and every
further one as itself. Readers take a fuel that the length of the text bounds; `none` means
that the text is malformed.
-/

namespace Conveyor
namespace Yaml

inductive Gap where
  | blanks (chars : List Char)
  /-- The first line break, and the others in order. -/
  | breaks (first : List Char) (others : List Char)

namespace Gap

def none : Gap := .blanks []

/-- What a gap reads as between two words. -/
def text : Gap → List Char
  | .blanks chars => chars
  | .breaks first others =>
    if first = ['\n'] then (if others.isEmpty then [' '] else others) else first ++ others

def hasBreak : Gap → Bool
  | .blanks _ => false
  | .breaks _ _ => true

def pushBlank (g : Gap) (c : Char) : Gap :=
  match g with
  | .blanks chars => .blanks (chars ++ [c])
  | g => g

def pushBreak (g : Gap) (c : Char) : Gap :=
  match g with
  | .blanks _ => .breaks [c] []
  | .breaks first others => .breaks first (others ++ [c])

end Gap

/-- Reads blanks and line breaks. A tab may not stand for indentation on a later line that is
indented less than `indent`. -/
def readGap (indent : Int) : Nat → Gap → Cursor → Option (Gap × Cursor)
  | 0, _, _ => none
  | fuel + 1, g, c =>
    match c.peek with
    | some ' ' => readGap indent fuel (g.pushBlank ' ') (c.skip 1)
    | some '\t' =>
      if g.hasBreak ∧ (c.column : Int) < indent then none
      else readGap indent fuel (g.pushBlank '\t') (c.skip 1)
    | _ =>
      match c.newline? with
      | some (b, c) => readGap indent fuel (g.pushBreak b) c
      | none => some (g, c)

/-! ## Plain -/

def isFlowIndicator (c : Char) : Bool := c = ',' || c = '[' || c = ']' || c = '\x7b' || c = '\x7d'

/-- The word at the start of a text. Inside brackets, a colon may not stand before an indicator
of the flow. -/
def plainWord (inFlow : Bool) : List Char → Option (List Char)
  | [] => some []
  | c :: cs =>
    if isSpacing c then some []
    else if inFlow && c = ':' &&
        (cs.head?.any fun d => d = '?' || isFlowIndicator d) then none
    else if (c = ':' && isSpacingOrEnd cs.head?) || (inFlow && isFlowIndicator c) then some []
    else (plainWord inFlow cs).map (c :: ·)

/-- A plain text after its words so far, in reverse, and a gap. Answers also whether a line
break came last. -/
def readPlainFrom (inFlow : Bool) (indent : Int) :
    Nat → List Char → Gap → Cursor → Option (String × Bool × Cursor)
  | 0, _, _, _ => none
  | fuel + 1, acc, g, c =>
    let stop := some (String.ofList acc.reverse, g.hasBreak, c)
    if c.atDocumentMarker || c.peek = some '#' then stop
    else
      match plainWord inFlow c.rest with
      | none => none
      | some [] => stop
      | some word =>
        let acc := word.reverse ++ (g.text.reverse ++ acc)
        let c := c.skip word.length
        if (c.peek.all fun d => !isSpacing d) then
          some (String.ofList acc.reverse, false, c)
        else
          match readGap indent (c.rest.length + 1) .none c with
          | none => none
          | some (g, c) =>
            if !inFlow && (c.column : Int) < indent then
              some (String.ofList acc.reverse, g.hasBreak, c)
            else readPlainFrom inFlow indent fuel acc g c

def readPlain (inFlow : Bool) (indent : Int) (c : Cursor) : Option (String × Bool × Cursor) :=
  readPlainFrom inFlow (indent + 1) (c.rest.length + 1) [] .none c

/-! ## Quoted -/

def simpleEscape (c : Char) : Option Char :=
  match c with
  | '0' => some (Char.ofNat 0)
  | 'a' => some (Char.ofNat 7)
  | 'b' => some (Char.ofNat 8)
  | 't' => some '\t'
  | '\t' => some '\t'
  | 'n' => some '\n'
  | 'v' => some (Char.ofNat 11)
  | 'f' => some (Char.ofNat 12)
  | 'r' => some '\r'
  | 'e' => some (Char.ofNat 27)
  | ' ' => some ' '
  | '"' => some '"'
  | '/' => some '/'
  | '\\' => some '\\'
  | 'N' => some (Char.ofNat 0x85)
  | '_' => some (Char.ofNat 0xA0)
  | 'L' => some (Char.ofNat 0x2028)
  | 'P' => some (Char.ofNat 0x2029)
  | _ => none

def escapeWidth (c : Char) : Nat :=
  match c with
  | 'x' => 2
  | 'u' => 4
  | 'U' => 8
  | _ => 0

def hexNumber? : Nat → Nat → List Char → Option Nat
  | 0, acc, _ => some acc
  | _ + 1, _, [] => none
  | n + 1, acc, c :: cs =>
    match Text.hexValue? c with
    | some d => hexNumber? n (16 * acc + d) cs
    | none => none

/-- The character of an escape after its backslash, and the length of the escape. -/
def readEscape (s : List Char) : Option (Char × Nat) :=
  match s with
  | [] => none
  | c :: cs =>
    match simpleEscape c with
    | some d => some (d, 1)
    | none =>
      let width := escapeWidth c
      if width = 0 then none
      else
        match hexNumber? width 0 cs with
        | none => none
        | some n =>
          if (0xD800 ≤ n ∧ n ≤ 0xDFFF) ∨ 0x10FFFF < n then none
          else some (Char.ofNat n, width + 1)

/-- A stretch of a quoted text without blanks. Answers also whether an escaped line break ended
it. -/
def readStretch (single : Bool) :
    Nat → List Char → Cursor → Option (List Char × Bool × Cursor)
  | 0, _, _ => none
  | fuel + 1, acc, c =>
    match c.rest with
    | [] => some (acc, false, c)
    | d :: ds =>
      if isSpacing d then some (acc, false, c)
      else if single then
        if d = '\'' then
          if ds.head? = some '\'' then readStretch single fuel ('\'' :: acc) (c.skip 2)
          else some (acc, false, c)
        else readStretch single fuel (d :: acc) (c.skip 1)
      else if d = '"' then some (acc, false, c)
      else if d = '\\' then
        match (c.skip 1).newline? with
        | some (_, c) => some (acc, true, c)
        | none =>
          match readEscape ds with
          | none => none
          | some (e, width) => readStretch single fuel (e :: acc) (c.skip (width + 1))
      else readStretch single fuel (d :: acc) (c.skip 1)

/-- A quoted text after its opening quote; `acc` is in reverse. -/
def readQuotedFrom (single : Bool) :
    Nat → List Char → Cursor → Option (String × Cursor)
  | 0, _, _ => none
  | fuel + 1, acc, c =>
    if c.atDocumentMarker then none
    else
      match readStretch single (c.rest.length + 1) acc c with
      | none => none
      | some (acc, escaped, c) =>
        if !escaped && c.peek = some (if single then '\'' else '"') then
          some (String.ofList acc.reverse, c.skip 1)
        else
          let gap := if escaped then Gap.breaks [] [] else .none
          match readGap 0 (c.rest.length + 1) gap c with
          | none => none
          | some (g, c) =>
            if c.rest.isEmpty then none
            else readQuotedFrom single fuel (g.text.reverse ++ acc) c

def readQuoted (single : Bool) (c : Cursor) : Option (String × Cursor) :=
  readQuotedFrom single (c.rest.length + 1) [] (c.skip 1)

/-! ## Blocks -/

inductive Chomping where
  | strip
  | clip
  | keep
  deriving DecidableEq

def readChomping (c : Cursor) : Option (Chomping × Cursor) :=
  match c.peek with
  | some '+' => some (.keep, c.skip 1)
  | some '-' => some (.strip, c.skip 1)
  | _ => none

/-- An explicit indentation, if there is one; it cannot be zero. -/
def readIncrement (c : Cursor) : Option (Option Nat × Cursor) :=
  match c.peek with
  | some d =>
    if d.isDigit then (if d = '0' then none else some (some (d.toNat - 48), c.skip 1))
    else some (none, c)
  | none => some (none, c)

/-- The two indicators of a block in either order. -/
def readHeader (c : Cursor) : Option (Chomping × Option Nat × Cursor) :=
  match readChomping c with
  | some (chomping, c) =>
    match readIncrement c with
    | none => none
    | some (increment, c) => some (chomping, increment, c)
  | none =>
    match readIncrement c with
    | none => none
    | some (some n, c) =>
      match readChomping c with
      | some (chomping, c) => some (chomping, some n, c)
      | none => some (.clip, some n, c)
    | some (none, c) => some (.clip, none, c)

/-- The line breaks before the next line with content, and the widest of the lines passed.
Without a known indentation all blanks count as such. -/
def readEmptyLines (indent : Option Nat) :
    Nat → List Char → Nat → Cursor → Option (List Char × Nat × Cursor)
  | 0, _, _, _ => none
  | fuel + 1, breaks, widest, c =>
    let blanks := (c.takeWhile (· = ' ')).length
    let c := c.skip (match indent with
      | none => blanks
      | some n => min blanks (n - c.column))
    let widest := max widest c.column
    if c.peek = some '\t' && indent.all (fun n => c.column < n) then none
    else
      match c.newline? with
      | some (b, c) => readEmptyLines indent fuel (breaks ++ [b]) widest c
      | none => some (breaks, widest, c)

/-- The lines of a block. `first` is the break that ended the line before and `breaks` are those
of the empty lines after it; `wasBlank` tells whether that line began with a blank. -/
def readLines (literal : Bool) (indent : Nat) :
    Nat → List Char → List Char → List Char → Bool → Cursor →
      Option (List Char × List Char × List Char × Cursor)
  | 0, _, _, _, _, _ => none
  | fuel + 1, acc, first, breaks, wasBlank, c =>
    if c.column ≠ indent || c.rest.isEmpty then some (acc, first, breaks, c)
    else
      let isBlank := c.peek.any Yaml.isBlank
      let join :=
        if !literal && first = ['\n'] && !wasBlank && !isBlank then
          (if breaks.isEmpty then [' '] else [])
        else first
      let line := c.takeWhile fun d => !isBreak d
      let acc := line.reverse ++ (breaks.reverse ++ (join.reverse ++ acc))
      let c := c.skip line.length
      let (first, c) :=
        match c.newline? with
        | some (b, c) => ([b], c)
        | none => ([], c)
      match readEmptyLines (some indent) (c.rest.length + 1) [] 0 c with
      | none => none
      | some (breaks, _, c) => readLines literal indent fuel acc first breaks isBlank c

/-- A block scalar from its indicator on, inside a block of that indentation. -/
def readBlock (literal : Bool) (parent : Int) (c : Cursor) : Option (String × Cursor) := do
  let (chomping, increment, c) ← readHeader (c.skip 1)
  let c := c.skipWhile isBlank
  let c := if c.peek = some '#' then c.skipLine else c
  let c ←
    match c.newline? with
    | some (_, c) => some c
    | none => if c.rest.isEmpty then some c else none
  let indent := increment.map fun n => if 0 ≤ parent then parent.toNat + n else n
  let (breaks, widest, c) ← readEmptyLines indent (c.rest.length + 1) [] 0 c
  let indent := indent.getD (max (max widest (parent + 1).toNat) 1)
  let (acc, first, breaks, c) ← readLines literal indent (c.rest.length + 1) [] [] breaks false c
  let tail :=
    match chomping with
    | .strip => []
    | .clip => first
    | .keep => first ++ breaks
  return (String.ofList (acc.reverse ++ tail), c)

end Yaml
end Conveyor
