import Conveyor.Json.Basic
import Conveyor.Text.Digits

/-!
# Conveyor.Json.Reader

Reading JSON text. `Json.parse?` accepts exactly one value with white space around it.

The readers take the characters that are left and return the value with the characters after
it. They recurse on a fuel that `Json.parse?` sets to the length of the text: every call uses
up a character before it calls again.
-/

namespace Conveyor
namespace Json

def isSpace (c : Char) : Bool := c = ' ' || c = '\n' || c = '\r' || c = '\t'

def skipSpace (s : List Char) : List Char := s.dropWhile isSpace

def readHex4 : List Char → Option (Nat × List Char)
  | a :: b :: c :: d :: rest =>
    match Text.hexValue? a, Text.hexValue? b, Text.hexValue? c, Text.hexValue? d with
    | some a, some b, some c, some d => some (((a * 16 + b) * 16 + c) * 16 + d, rest)
    | _, _, _, _ => none
  | _ => none

/-- The low half of a surrogate pair, written as an escape. -/
def readLowHalf (s : List Char) : Option (Nat × List Char) :=
  match s with
  | '\\' :: 'u' :: rest =>
    match readHex4 rest with
    | some (n, rest') => if 0xDC00 ≤ n ∧ n ≤ 0xDFFF then some (n, rest') else none
    | none => none
  | _ => none

/-- One character of a string; `none` in the first place is half of a pair. -/
def readEscape (s : List Char) : Option (Option Char × List Char) :=
  match s with
  | '"' :: r => some (some '"', r)
  | '\\' :: r => some (some '\\', r)
  | '/' :: r => some (some '/', r)
  | 'b' :: r => some (some (Char.ofNat 8), r)
  | 'f' :: r => some (some (Char.ofNat 12), r)
  | 'n' :: r => some (some '\n', r)
  | 'r' :: r => some (some '\r', r)
  | 't' :: r => some (some '\t', r)
  | 'u' :: r =>
    match readHex4 r with
    | none => none
    | some (n, r) =>
      if 0xD800 ≤ n ∧ n ≤ 0xDBFF then
        match readLowHalf r with
        | some (m, r) => some (some (Char.ofNat (0x10000 + (n - 0xD800) * 1024 + (m - 0xDC00))), r)
        | none => some (none, r)
      else if 0xDC00 ≤ n ∧ n ≤ 0xDFFF then some (none, r)
      else some (some (Char.ofNat n), r)
  | _ => none

/-- The rest of a string after its opening quote; `acc` holds the characters so far in
reverse, or nothing once half of a pair was met. -/
def readStringTail : Nat → Option (List Char) → List Char → Option (Option String × List Char)
  | 0, _, _ => none
  | _ + 1, _, [] => none
  | fuel + 1, acc, c :: rest =>
    if c = '"' then some (acc.map fun a => String.ofList a.reverse, rest)
    else if c = '\\' then
      match readEscape rest with
      | none => none
      | some (some d, rest) => readStringTail fuel (acc.map (d :: ·)) rest
      | some (none, rest) => readStringTail fuel none rest
    else if c.toNat < 32 then none
    else readStringTail fuel (acc.map (c :: ·)) rest

def readString (s : List Char) : Option (Option String × List Char) :=
  readStringTail (s.length + 1) (some []) s

def isDigit (c : Char) : Bool := '0' ≤ c && c ≤ '9'

def natOfDigits (ds : List Char) : Nat := ds.foldl (fun n d => 10 * n + (d.toNat - 48)) 0

def readDigits (s : List Char) : Option (List Char × List Char) :=
  match s.takeWhile isDigit with
  | [] => none
  | ds => some (ds, s.dropWhile isDigit)

def readFraction (s : List Char) : Option (List Char × List Char) :=
  match s with
  | '.' :: rest => (readDigits rest).map fun (ds, r) => ('.' :: ds, r)
  | _ => some ([], s)

def readExponent (s : List Char) : Option (List Char × List Char) :=
  match s with
  | e :: rest =>
    if e = 'e' ∨ e = 'E' then
      match rest with
      | '+' :: rest => (readDigits rest).map fun (ds, r) => (e :: '+' :: ds, r)
      | '-' :: rest => (readDigits rest).map fun (ds, r) => (e :: '-' :: ds, r)
      | _ => (readDigits rest).map fun (ds, r) => (e :: ds, r)
    else some ([], s)
  | [] => some ([], [])

/-- A number after its sign. A leading zero stands alone. -/
def readNumber (negative : Bool) (s : List Char) : Option (Json × List Char) :=
  match readDigits s with
  | none => none
  | some (ds, rest) =>
    if ds.length > 1 ∧ ds.head? = some '0' then none
    else
      match readFraction rest with
      | none => none
      | some (fraction, rest) =>
        match readExponent rest with
        | none => none
        | some (exponent, rest) =>
          let sign := if negative then ['-'] else []
          let n := natOfDigits ds
          if fraction.isEmpty ∧ exponent.isEmpty ∧ ¬ (negative ∧ n = 0) then
            some (.int (if negative then - (n : Int) else n), rest)
          else some (.decimal (String.ofList (sign ++ ds ++ fraction ++ exponent)), rest)

/-- A word such as `null`, given without its first letter. -/
def readWord (word : String) (value : Json) (s : List Char) : Option (Json × List Char) :=
  if word.toList.isPrefixOf s then some (value, s.drop word.length) else none

mutual

/-- One value; white space before it was skipped. -/
def readValue : Nat → List Char → Option (Json × List Char)
  | 0, _ => none
  | fuel + 1, s =>
    match s with
    | [] => none
    | 'n' :: rest => readWord "ull" .null rest
    | 't' :: rest => readWord "rue" (.bool true) rest
    | 'f' :: rest => readWord "alse" (.bool false) rest
    | '"' :: rest =>
      match readString rest with
      | none => none
      | some (some text, rest) => some (.str text, rest)
      | some (none, rest) => some (.halfPair, rest)
    | '[' :: rest =>
      match skipSpace rest with
      | ']' :: rest => some (.arr [], rest)
      | rest => (readItems fuel rest).map fun (items, r) => (.arr items, r)
    | '{' :: rest =>
      match skipSpace rest with
      | '}' :: rest => some (.obj [], rest)
      | rest => (readFields fuel rest).map fun (fields, r) => (.obj fields, r)
    | '-' :: rest => readNumber true rest
    | c :: rest => readNumber false (c :: rest)

/-- The items of an array up to its bracket, at least one. -/
def readItems : Nat → List Char → Option (List Json × List Char)
  | 0, _ => none
  | fuel + 1, s =>
    match readValue fuel s with
    | none => none
    | some (item, rest) =>
      match skipSpace rest with
      | ']' :: rest => some ([item], rest)
      | ',' :: rest => (readItems fuel (skipSpace rest)).map fun (items, r) => (item :: items, r)
      | _ => none

/-- The fields of an object up to its brace, at least one. -/
def readFields : Nat → List Char → Option (List (String × Json) × List Char)
  | 0, _ => none
  | fuel + 1, s =>
    match s with
    | '"' :: rest =>
      match readString rest with
      | some (some key, rest) =>
        match skipSpace rest with
        | ':' :: rest =>
          match readValue fuel (skipSpace rest) with
          | none => none
          | some (value, rest) =>
            match skipSpace rest with
            | '}' :: rest => some ([(key, value)], rest)
            | ',' :: rest =>
              (readFields fuel (skipSpace rest)).map fun (fields, r) => ((key, value) :: fields, r)
            | _ => none
        | _ => none
      | _ => none
    | _ => none

end

/-- The value that a text is, with white space around it and nothing else. -/
def parse? (s : String) : Option Json :=
  let cs := s.toList
  match readValue (2 * cs.length + 2) (skipSpace cs) with
  | some (j, rest) => if (skipSpace rest).isEmpty then some j else none
  | none => none

end Json
end Conveyor
