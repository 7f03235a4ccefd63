/-!
# Conveyor.Yaml.Cursor

A place in a YAML text, and the classes of characters that readers ask about.

* `Yaml.Cursor`      — what is left of the text, with the line and the column of its start.
* `Cursor.skipWhile` — goes on over characters of a class that holds no line break.
* `Cursor.newline?`  — goes on over one line break, of any kind.

Besides `\n` and `\r` the characters NEL, LS and PS break lines. All but the last two are read
as `\n`.
-/

namespace Conveyor
namespace Yaml

/-! ## Characters -/

def isAllowed (c : Char) : Bool :=
  let n := c.toNat
  n == 0x09 || n == 0x0A || n == 0x0D || (0x20 ≤ n && n ≤ 0x7E) || n == 0x85
    || (0xA0 ≤ n && n ≤ 0xD7FF) || (0xE000 ≤ n && n ≤ 0xFFFD) || 0x10000 ≤ n

def isBlank (c : Char) : Bool := c = ' ' || c = '\t'

def isBreak (c : Char) : Bool :=
  c = '\n' || c = '\r' || c.toNat = 0x85 || c.toNat = 0x2028 || c.toNat = 0x2029

def isSpacing (c : Char) : Bool := isBlank c || isBreak c

def isNameChar (c : Char) : Bool := c.isAlphanum || c = '_' || c = '-'

def isSpacingOrEnd : Option Char → Bool
  | none => true
  | some c => isSpacing c

def byteOrderMark : Char := Char.ofNat 0xFEFF

/-! ## Places -/

structure Cursor where
  rest : List Char
  line : Nat := 0
  column : Nat := 0
  deriving Repr

namespace Cursor

def peek (c : Cursor) : Option Char := c.rest.head?

def peekAt (c : Cursor) (n : Nat) : Option Char := c.rest[n]?

def skip (c : Cursor) (n : Nat) : Cursor :=
  { c with rest := c.rest.drop n, column := c.column + n }

def takeWhile (c : Cursor) (p : Char → Bool) : List Char := c.rest.takeWhile p

def skipWhile (c : Cursor) (p : Char → Bool) : Cursor := c.skip (c.takeWhile p).length

/-- Goes on over one line break; also answers what it is read as. -/
def newline? (c : Cursor) : Option (Char × Cursor) :=
  match c.rest with
  | '\r' :: '\n' :: rest => some ('\n', ⟨rest, c.line + 1, 0⟩)
  | b :: rest =>
    if isBreak b then
      some (if b.toNat = 0x2028 ∨ b.toNat = 0x2029 then b else '\n', ⟨rest, c.line + 1, 0⟩)
    else none
  | [] => none

def skipLine (c : Cursor) : Cursor := c.skipWhile fun d => !isBreak d

/-- Three times the same character at the start of a line, and nothing after them. -/
def atMarker (c : Cursor) (mark : Char) : Bool :=
  c.column = 0 && c.rest.take 3 = [mark, mark, mark] && isSpacingOrEnd (c.peekAt 3)

/-- A marker of the start or the end of a document. -/
def atDocumentMarker (c : Cursor) : Bool := c.atMarker '-' || c.atMarker '.'

end Cursor
end Yaml
end Conveyor
