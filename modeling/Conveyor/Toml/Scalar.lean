import Conveyor.Decimal
import Conveyor.Text.Digits
import Conveyor.Timestamp
import Conveyor.Toml.Value

/-!
# Conveyor.Toml.Scalar

The values that are written in one piece: strings, numbers, dates and times.

* `readString` — a string in any of the four quotings.
* `readNumber` — a number, a date or a time.

Readers take the characters that are left and return a value with the characters after it.
-/

namespace Conveyor
namespace Toml

/-! ## Characters -/

def isBlank (c : Char) : Bool := c = ' ' || c = '\t'

def isTextChar (c : Char) : Bool := c = '\t' || (0x20 ≤ c.toNat && c.toNat ≠ 0x7F)

def skipBlanks (s : List Char) : List Char := s.dropWhile isBlank

def afterBreak? : List Char → Option (List Char)
  | '\n' :: rest => some rest
  | '\r' :: '\n' :: rest => some rest
  | _ => none

def skipLines : Nat → List Char → List Char
  | 0, s => s
  | fuel + 1, s =>
    match afterBreak? (skipBlanks s) with
    | some rest => skipLines fuel rest
    | none => skipBlanks s

/-! ## Strings -/

def readCodePoint (width : Nat) (s : List Char) : Option (Char × List Char) :=
  let digits := s.take width
  if digits.length = width then
    match Text.natural? 16 digits with
    | some n => if n.isValidChar then some (Char.ofNat n, s.drop width) else none
    | none => none
  else none

def readEscape (s : List Char) : Option (Char × List Char) :=
  match s with
  | 'b' :: r => some (Char.ofNat 8, r)
  | 'f' :: r => some (Char.ofNat 12, r)
  | 'n' :: r => some ('\n', r)
  | 'r' :: r => some ('\r', r)
  | 't' :: r => some ('\t', r)
  | '"' :: r => some ('"', r)
  | '\\' :: r => some ('\\', r)
  | 'u' :: r => readCodePoint 4 r
  | 'U' :: r => readCodePoint 8 r
  | _ => none

/-- The rest of a string of one line after its opening quote. Escapes count only between double
quotes; `acc` is in reverse. -/
def readLine (quote : Char) : Nat → List Char → List Char → Option (String × List Char)
  | 0, _, _ => none
  | _ + 1, _, [] => none
  | fuel + 1, acc, c :: rest =>
    if c = quote then some (String.ofList acc.reverse, rest)
    else if quote = '"' ∧ c = '\\' then
      match readEscape rest with
      | some (e, rest) => readLine quote fuel (e :: acc) rest
      | none => none
    else if isTextChar c then readLine quote fuel (c :: acc) rest
    else none

/-- The rest of a string of several lines. Up to two quotes belong to it wherever they stand,
also right before the three that close it. A backslash at the end of a line hides all white
space after it. -/
def readLines (quote : Char) : Nat → List Char → List Char → Option (String × List Char)
  | 0, _, _ => none
  | _ + 1, _, [] => none
  | fuel + 1, acc, c :: rest =>
    if c = quote then
      let n := ((c :: rest).takeWhile (· = quote)).length
      if n < 3 then readLines quote fuel (quote :: acc) rest
      else
        let inside := min (n - 3) 2
        some (String.ofList (acc.reverse ++ List.replicate inside quote),
          (c :: rest).drop (3 + inside))
    else if quote = '"' ∧ c = '\\' then
      match afterBreak? (skipBlanks rest) with
      | some rest => readLines quote fuel acc (skipLines (rest.length + 1) rest)
      | none =>
        match readEscape rest with
        | some (e, rest) => readLines quote fuel (e :: acc) rest
        | none => none
    else
      match afterBreak? (c :: rest) with
      | some rest => readLines quote fuel ('\n' :: acc) rest
      | none => if isTextChar c then readLines quote fuel (c :: acc) rest else none

/-- A string with its quotes. A line break right after three quotes is dropped. -/
def readString (quote : Char) (s : List Char) : Option (String × List Char) :=
  if s.take 3 = [quote, quote, quote] then
    let body := s.drop 3
    let body := (afterBreak? body).getD body
    readLines quote (body.length + 1) [] body
  else readLine quote (s.length + 1) [] (s.drop 1)

/-! ## Numbers -/

def readDigits (isDigit : Char → Bool) : List Char → Option (List Char × List Char)
  | [] => none
  | c :: rest =>
    if !isDigit c then none
    else
      match rest with
      | '_' :: more => (readDigits isDigit more).map fun (ds, r) => (c :: ds, r)
      | d :: more =>
        if isDigit d then (readDigits isDigit (d :: more)).map fun (ds, r) => (c :: ds, r)
        else some ([c], d :: more)
      | [] => some ([c], [])

def readSign : List Char → Bool × List Char
  | '-' :: s => (true, s)
  | '+' :: s => (false, s)
  | s => (false, s)

def readWhole : List Char → Option (List Char × List Char)
  | '0' :: rest => some (['0'], rest)
  | s => readDigits Char.isDigit s

def integer? (n : Int) : Option Value :=
  if Int64.minValue.toInt ≤ n ∧ n ≤ Int64.maxValue.toInt then some (.integer n) else none

def readBased (base : Nat) (s : List Char) : Option (Value × List Char) :=
  match readDigits (fun c => (Text.digit? base c).isSome) s with
  | none => none
  | some (digits, rest) =>
    match Text.natural? base digits with
    | some n => (integer? n).map fun v => (v, rest)
    | none => none

def readFraction : List Char → Option (List Char × List Char)
  | '.' :: s => readDigits Char.isDigit s
  | s => some ([], s)

def readExponent (s : List Char) : Option (Int × List Char) :=
  match s with
  | [] => some (0, [])
  | c :: cs =>
    if c = 'e' ∨ c = 'E' then
      let (negative, cs) := readSign cs
      match readDigits Char.isDigit cs with
      | none => none
      | some (digits, rest) =>
        (Text.natural? 10 digits).map fun n => (if negative then -(n : Int) else n, rest)
    else some (0, c :: cs)

/-- A number in base ten. One too large for a double is refused, unless it is negative. -/
def readDecimal (s : List Char) : Option (Value × List Char) := do
  let (negative, s) := readSign s
  let (whole, rest) ← readWhole s
  let isFloat :=
    match rest with
    | c :: _ => c = '.' || c = 'e' || c = 'E'
    | [] => false
  if isFloat then
    let (fraction, rest) ← readFraction rest
    let (exponent, rest) ← readExponent rest
    let n ← Text.natural? 10 (whole ++ fraction)
    if negative || Decimal.isFinite n (exponent - fraction.length) then some (.float, rest)
    else none
  else
    let n ← Text.natural? 10 whole
    let v ← integer? (if negative then -(n : Int) else n)
    some (v, rest)

/-! ## Dates and times -/

/-- A date as year, month and day, each part with all its digits. -/
def readDate (s : List Char) : Option (String × List Char) := do
  let (year, s) ← Timestamp.readNumber 4 0 s
  let s ← Timestamp.readChar ['-'] s
  let (month, s) ← Timestamp.readNumber 2 0 s
  let s ← Timestamp.readChar ['-'] s
  let (day, s) ← Timestamp.readNumber 2 0 s
  if 1 ≤ month ∧ month ≤ 12 ∧ 1 ≤ day ∧ day ≤ Timestamp.daysInMonth year month then
    some (Timestamp.padded 4 year ++ "-" ++ Timestamp.padded 2 month ++ "-" ++
      Timestamp.padded 2 day, s)
  else none

/-- Nine decimal places without the zeros at their end. -/
def placesText (nanos : Nat) : String :=
  if nanos = 0 then ""
  else
    let digits := (Timestamp.padded 9 nanos).toList.reverse.dropWhile (· = '0')
    "." ++ String.ofList digits.reverse

def readTime (s : List Char) : Option (String × List Char) := do
  let (hour, s) ← Timestamp.readNumber 2 0 s
  let s ← Timestamp.readChar [':'] s
  let (minute, s) ← Timestamp.readNumber 2 0 s
  let s ← Timestamp.readChar [':'] s
  let (second, s) ← Timestamp.readNumber 2 0 s
  let (nanos, s) ← Timestamp.readNanos s
  if hour < 24 ∧ minute < 60 ∧ second ≤ 60 then
    some (Timestamp.padded 2 hour ++ ":" ++ Timestamp.padded 2 minute ++ ":" ++
      Timestamp.padded 2 second ++ placesText nanos, s)
  else none

/-- An offset from UTC; none at all is empty. -/
def readOffset (s : List Char) : Option (String × List Char) :=
  match s with
  | 'Z' :: rest | 'z' :: rest => some ("Z", rest)
  | sign :: rest =>
    if sign = '+' ∨ sign = '-' then do
      let (hours, rest) ← Timestamp.readNumber 2 0 rest
      let rest ← Timestamp.readChar [':'] rest
      let (minutes, rest) ← Timestamp.readNumber 2 0 rest
      if hours < 24 ∧ minutes < 60 then
        let shown := if sign = '-' ∧ (hours, minutes) ≠ (0, 0) then "-" else "+"
        some (shown ++ Timestamp.padded 2 hours ++ ":" ++ Timestamp.padded 2 minutes, rest)
      else none
    else some ("", sign :: rest)
  | [] => some ("", [])

/-- A date with an optional time and offset, or a time alone. -/
def readDatetime (s : List Char) : Option (Value × List Char) :=
  match readDate s with
  | some (date, rest) =>
    match (Timestamp.readChar ['T', 't', ' '] rest).bind readTime with
    | none => some (.datetime date, rest)
    | some (time, rest) =>
      (readOffset rest).map fun (offset, rest) =>
        (.datetime (date ++ "T" ++ time ++ offset), rest)
  | none => (readTime s).map fun (time, rest) => (.datetime time, rest)

def readSpecial (s : List Char) : Option (Value × List Char) :=
  match s with
  | 'i' :: 'n' :: 'f' :: rest | 'n' :: 'a' :: 'n' :: rest => some (.float, rest)
  | _ => none

def readNumber (s : List Char) : Option (Value × List Char) :=
  match readDatetime s with
  | some r => some r
  | none =>
    match readSpecial (readSign s).2 with
    | some r => some r
    | none =>
      match s with
      | '0' :: 'x' :: rest => readBased 16 rest
      | '0' :: 'o' :: rest => readBased 8 rest
      | '0' :: 'b' :: rest => readBased 2 rest
      | s => readDecimal s

end Toml
end Conveyor
