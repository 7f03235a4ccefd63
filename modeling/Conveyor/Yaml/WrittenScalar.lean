import Conveyor.Yaml.PlainValue
import Conveyor.Yaml.Token

/-!
# Conveyor.Yaml.WrittenScalar

The written form of a text as a YAML scalar.

* `styleOf`       — the plainest style in which the text reads back as itself.
* `writtenScalar` — the text in that style.

A text of one line is plain where nothing in it could be taken for YAML, quoted else. A text
with line feeds is a literal block. A text that has other unprintable characters, or blanks
before a line break, is in double quotes with escapes.
-/

namespace Conveyor
namespace Yaml

/-! ## Shapes of texts -/

def isPrintable (c : Char) : Bool :=
  c = '\n' || (isAllowed c && c ≠ '\t' && c ≠ '\r' && c.toNat ≠ 0x85 && c ≠ byteOrderMark)

def isSpaceOrBreak (c : Char) : Bool := c = ' ' || isBreak c

/-- Two neighbours of those classes, in that order. -/
def hasPair (p q : Char → Bool) : List Char → Bool
  | c :: d :: rest => (p c && q d) || hasPair p q (d :: rest)
  | _ => false

def isSpace (c : Char) : Bool := c = ' '

/-- A colon before a blank or the end, or a number sign after a blank. -/
def hasInnerIndicator : List Char → Bool
  | [] => false
  | c :: rest =>
    (rest.head? = some ':' && isSpacingOrEnd (rest.drop 1).head?)
      || (isSpacing c && rest.head? = some '#') || hasInnerIndicator rest

/-- The start of the text could be taken for an indicator. -/
def startsIndicator (s : List Char) : Bool :=
  s.take 3 = ['-', '-', '-'] || s.take 3 = ['.', '.', '.'] ||
    match s with
    | [] => false
    | c :: rest =>
      "#,[]\x7b\x7d&*!|>'\"%@`".toList.contains c
        || ("?:-".toList.contains c && isSpacingOrEnd rest.head?)

def needsEscapes (s : List Char) : Bool :=
  s.any (fun c => !isPrintable c) || hasPair isSpace isBreak s

def allowsPlain (s : List Char) : Bool :=
  !(needsEscapes s || s.any isBreak || s.head?.any isSpace || s.getLast?.any isSpace
    || startsIndicator s || hasInnerIndicator s)

def allowsSingleQuotes (s : List Char) : Bool := !(needsEscapes s || hasPair isBreak isSpace s)

def allowsLiteral (s : List Char) : Bool := !(needsEscapes s || s.getLast?.any isSpace)

/-- A plain scalar of that text would not be read as the text. -/
def isAmbiguous (s : String) : Bool := PlainValue.of s ≠ .text || hasUselessZero s.toList

/-- The plainest style in which the text reads back as itself. -/
def styleOf (s : String) : ScalarStyle :=
  let cs := s.toList
  if cs.contains '\n' then (if allowsLiteral cs then .literal else .doubleQuoted)
  else if !isAmbiguous s && allowsPlain cs then .plain
  else if allowsSingleQuotes cs then .singleQuoted
  else .doubleQuoted

/-! ## Written forms -/

def upperHexDigit (n : Nat) : Char :=
  if n < 10 then Char.ofNat (48 + n) else Char.ofNat (55 + n)

def hexDigits : Nat → Nat → List Char
  | 0, _ => []
  | width + 1, n => hexDigits width (n / 16) ++ [upperHexDigit (n % 16)]

def escapeLetter? (c : Char) : Option Char :=
  match c.toNat with
  | 0x00 => some '0'
  | 0x07 => some 'a'
  | 0x08 => some 'b'
  | 0x09 => some 't'
  | 0x0A => some 'n'
  | 0x0B => some 'v'
  | 0x0C => some 'f'
  | 0x0D => some 'r'
  | 0x1B => some 'e'
  | 0x22 => some '"'
  | 0x5C => some '\\'
  | 0x85 => some 'N'
  | 0x2028 => some 'L'
  | 0x2029 => some 'P'
  | _ => none

def escaped (c : Char) : List Char :=
  match escapeLetter? c with
  | some letter => ['\\', letter]
  | none =>
    if isPrintable c then [c]
    else if c.toNat ≤ 0xFF then '\\' :: 'x' :: hexDigits 2 c.toNat
    else if c.toNat ≤ 0xFFFF then '\\' :: 'u' :: hexDigits 4 c.toNat
    else '\\' :: 'U' :: hexDigits 8 c.toNat

def spaces (n : Nat) : List Char := List.replicate n ' '

/-- The lines of a text, each with its break, behind an indentation. Empty lines get none;
`fresh` says that a line starts here. -/
def indentLines (indent : Nat) : Bool → List Char → List Char
  | _, [] => []
  | fresh, c :: rest =>
    if isBreak c then c :: indentLines indent true rest
    else (if fresh then spaces indent else []) ++ c :: indentLines indent false rest

/-- Between single quotes, only a quote is doubled. The closing quote is indented like a text
on its line. -/
def singleQuotedChars (indent : Nat) (s : List Char) : List Char :=
  let doubled := s.flatMap fun c => if c = '\'' then ['\'', '\''] else [c]
  '\'' :: indentLines indent false (doubled ++ ['\''])

def doubleQuotedChars (s : List Char) : List Char := '"' :: (s.flatMap escaped ++ ['"'])

/-- The indicators after the bar: an indentation where the text hides it, and what happens to
the line breaks at the end. -/
def literalHeader (s : List Char) : List Char :=
  let indentation := if s.head?.any isSpaceOrBreak then ['2'] else []
  let chomping :=
    match s.reverse with
    | [] => ['-']
    | [c] => if isBreak c then ['+'] else ['-']
    | c :: d :: _ => if !isBreak c then ['-'] else if isBreak d then ['+'] else []
  indentation ++ chomping

def literalChars (indent : Nat) (s : List Char) : List Char :=
  '|' :: (literalHeader s ++ '\n' :: indentLines indent true s)

def writtenScalar (indent : Nat) (s : String) : List Char :=
  match styleOf s with
  | .plain | .folded => s.toList
  | .singleQuoted => singleQuotedChars indent s.toList
  | .doubleQuoted => doubleQuotedChars s.toList
  | .literal => literalChars indent s.toList

end Yaml
end Conveyor
