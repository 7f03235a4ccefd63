/-!
# Conveyor.Timestamp

Instants as RFC 3339 writes them.

* `Timestamp.parse?` — reads a date, a time with any number of decimal places, and an offset.
* `Timestamp.text`   — the instant in UTC, with as many groups of three decimal places as it
                       needs.

Days are counted in the proleptic Gregorian calendar.
-/

namespace Conveyor

/-- An instant in UTC. A leap second is the sixty-first second of its minute. -/
structure Timestamp where
  /-- Days since the first of March of the year zero. -/
  day : Int
  minute : Nat
  second : Nat
  nanos : Nat
  deriving DecidableEq, Repr, Inhabited

namespace Timestamp

def isLeapYear (year : Int) : Bool :=
  (year % 4 = 0 && year % 100 ≠ 0) || year % 400 = 0

def daysInMonth (year : Int) (month : Nat) : Nat :=
  match month with
  | 2 => if isLeapYear year then 29 else 28
  | 4 | 6 | 9 | 11 => 30
  | _ => 31

/-- Days from the first of March of the year zero. Years are taken to start with March, so that
a leap day is the last of its year. -/
def dayOfDate (year : Int) (month day : Nat) : Int :=
  let y := if month ≤ 2 then year - 1 else year
  let m : Int := if month ≤ 2 then month + 9 else month - 3
  365 * y + y / 4 - y / 100 + y / 400 + (153 * m + 2) / 5 + day - 1

def dateOfDay (n : Int) : Int × Nat × Nat :=
  let era := n / 146097
  let d := n % 146097
  let y := (d - d / 1460 + d / 36524 - d / 146096) / 365
  let inYear := d - (365 * y + y / 4 - y / 100)
  let m := (5 * inYear + 2) / 153
  let day := inYear - (153 * m + 2) / 5 + 1
  let month := if m < 10 then m + 3 else m - 9
  (era * 400 + y + (if month ≤ 2 then 1 else 0), month.toNat, day.toNat)

def ofSeconds (seconds : Int) (nanos : Nat) : Timestamp :=
  let inDay := (seconds % 86400).toNat
  { day := dayOfDate 1970 1 1 + seconds / 86400
    minute := inDay / 60
    second := inDay % 60
    nanos }

/-! ## Reading -/

def digit? (c : Char) : Option Nat := if c.isDigit then some (c.toNat - 48) else none

def readNumber : Nat → Nat → List Char → Option (Nat × List Char)
  | 0, acc, s => some (acc, s)
  | _ + 1, _, [] => none
  | n + 1, acc, c :: s =>
    match digit? c with
    | some d => readNumber n (10 * acc + d) s
    | none => none

def readChar (allowed : List Char) : List Char → Option (List Char)
  | [] => none
  | c :: s => if c ∈ allowed then some s else none

/-- The decimal places after the seconds, at least one if there is a point. Those after the
ninth are dropped. -/
def readNanos (s : List Char) : Option (Nat × List Char) :=
  match s with
  | '.' :: rest =>
    match rest.takeWhile Char.isDigit with
    | [] => none
    | digits =>
      let nine := (digits ++ List.replicate 9 '0').take 9
      some (nine.foldl (fun n c => 10 * n + (c.toNat - 48)) 0, rest.dropWhile Char.isDigit)
  | _ => some (0, s)

def readOffset (s : List Char) : Option Int :=
  match s with
  | ['Z'] | ['z'] => some 0
  | sign :: rest => do
    let (hours, rest) ← readNumber 2 0 rest
    let rest ← readChar [':'] rest
    let (minutes, rest) ← readNumber 2 0 rest
    if rest.isEmpty ∧ hours < 24 ∧ minutes < 60 then
      let total : Int := 60 * hours + minutes
      if sign = '+' then some total
      else if sign = '-' ∨ sign = '−' then some (-total)
      else none
    else none
  | [] => none

def parse? (text : String) : Option Timestamp := do
  let (year, s) ← readNumber 4 0 text.toList
  let s ← readChar ['-'] s
  let (month, s) ← readNumber 2 0 s
  let s ← readChar ['-'] s
  let (day, s) ← readNumber 2 0 s
  let s ← readChar ['T', 't', ' '] s
  let (hour, s) ← readNumber 2 0 s
  let s ← readChar [':'] s
  let (minute, s) ← readNumber 2 0 s
  let s ← readChar [':'] s
  let (second, s) ← readNumber 2 0 s
  let (nanos, s) ← readNanos s
  let offset ← readOffset s
  if 1 ≤ month ∧ month ≤ 12 ∧ 1 ≤ day ∧ day ≤ daysInMonth year month ∧ hour < 24 ∧ minute < 60 ∧
      second ≤ 60 then
    let total : Int := dayOfDate year month day * 1440 + 60 * hour + minute - offset
    some { day := total / 1440, minute := (total % 1440).toNat, second, nanos }
  else none

/-! ## Writing -/

def padded (width n : Nat) : String :=
  let digits := toString n
  String.ofList (List.replicate (width - digits.length) '0') ++ digits

/-- Years outside of four digits carry their sign. -/
def yearText (year : Int) : String :=
  if 0 ≤ year ∧ year ≤ 9999 then padded 4 year.toNat
  else if year < 0 then "-" ++ padded 4 (-year).toNat
  else "+" ++ toString year

def fractionText (nanos : Nat) : String :=
  if nanos = 0 then ""
  else if nanos % 1000000 = 0 then "." ++ padded 3 (nanos / 1000000)
  else if nanos % 1000 = 0 then "." ++ padded 6 (nanos / 1000)
  else "." ++ padded 9 nanos

def text (t : Timestamp) : String :=
  let (year, month, day) := dateOfDay t.day
  yearText year ++ "-" ++ padded 2 month ++ "-" ++ padded 2 day ++ "T" ++
    padded 2 (t.minute / 60) ++ ":" ++ padded 2 (t.minute % 60) ++ ":" ++ padded 2 t.second ++
    fractionText t.nanos ++ "Z"

end Timestamp
end Conveyor
