import Conveyor.Json.Basic

/-!
# Conveyor.Json.Printer

The two written forms of a JSON value.

* `Json.compact` — no white space at all.
* `Json.pretty`  — one member a line, two spaces for each level.

A string is written with the short escapes where JSON has one, `\u00xx` for the other control
characters, and every other character as it is.
-/

namespace Conveyor
namespace Json

def hexDigit (n : Nat) : Char :=
  if n < 10 then Char.ofNat (48 + n) else Char.ofNat (87 + n)

def escapeChar (c : Char) : List Char :=
  if c = '"' then ['\\', '"']
  else if c = '\\' then ['\\', '\\']
  else if c = '\n' then ['\\', 'n']
  else if c = '\r' then ['\\', 'r']
  else if c = '\t' then ['\\', 't']
  else if c.toNat = 8 then ['\\', 'b']
  else if c.toNat = 12 then ['\\', 'f']
  else if c.toNat < 32 then
    ['\\', 'u', '0', '0', hexDigit (c.toNat / 16), hexDigit (c.toNat % 16)]
  else [c]

def quoted (s : String) : List Char := '"' :: (s.toList.flatMap escapeChar ++ ['"'])

mutual

def compactChars : Json → List Char
  | .null => "null".toList
  | .bool true => "true".toList
  | .bool false => "false".toList
  | .int n => (toString n).toList
  | .decimal w => w.toList
  | .str s => quoted s
  | .halfPair => quoted ""
  | .arr items => '[' :: (compactItems items ++ [']'])
  | .obj fields => '{' :: (compactFields fields ++ ['}'])

def compactItems : List Json → List Char
  | [] => []
  | [j] => compactChars j
  | j :: rest => compactChars j ++ ',' :: compactItems rest

def compactFields : List (String × Json) → List Char
  | [] => []
  | [(k, j)] => quoted k ++ ':' :: compactChars j
  | (k, j) :: rest => quoted k ++ ':' :: (compactChars j ++ ',' :: compactFields rest)

end

def compact (j : Json) : String := String.ofList (compactChars j)

def newline (depth : Nat) : List Char := '\n' :: List.replicate (2 * depth) ' '

mutual

/-- The pretty form as characters, inside `depth` levels. -/
def prettyChars (depth : Nat) : Json → List Char
  | .null => "null".toList
  | .bool true => "true".toList
  | .bool false => "false".toList
  | .int n => (toString n).toList
  | .decimal w => w.toList
  | .str s => quoted s
  | .halfPair => quoted ""
  | .arr [] => ['[', ']']
  | .arr (j :: rest) =>
    '[' :: (newline (depth + 1) ++ prettyItems (depth + 1) (j :: rest) ++ newline depth ++ [']'])
  | .obj [] => ['{', '}']
  | .obj (f :: rest) =>
    '{' :: (newline (depth + 1) ++ prettyFields (depth + 1) (f :: rest) ++ newline depth ++ ['}'])

def prettyItems (depth : Nat) : List Json → List Char
  | [] => []
  | [j] => prettyChars depth j
  | j :: rest => prettyChars depth j ++ ',' :: (newline depth ++ prettyItems depth rest)

def prettyFields (depth : Nat) : List (String × Json) → List Char
  | [] => []
  | [(k, j)] => quoted k ++ ':' :: ' ' :: prettyChars depth j
  | (k, j) :: rest =>
    quoted k ++ ':' :: ' ' :: (prettyChars depth j ++
      ',' :: (newline depth ++ prettyFields depth rest))

end

def pretty (j : Json) : String := String.ofList (prettyChars 0 j)

end Json
end Conveyor
