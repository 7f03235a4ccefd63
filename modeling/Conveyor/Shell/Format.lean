import Conveyor.Shell.Arithmetic

/-!
# Conveyor.Shell.Format

Texts with escapes, and formats that arguments are put into.

* `Escapes`        — which escapes a text may hold.
* `unescape`       — a text with its escapes read, and whether one of them ends the output.
* `Format.render`  — a format with arguments, used again while arguments are left.
-/

namespace Conveyor
namespace Shell

/-- Which escapes a text may hold. -/
structure Escapes where
  /-- A zero in front of octal digits is not one of them. -/
  leadingZero : Bool := false
  /-- Characters may be given by hexadecimal digits. -/
  hexadecimal : Bool := false
  /-- One escape ends the output. -/
  stops : Bool := false
  deriving DecidableEq, Repr

def isOctal (c : Char) : Bool := '0' ≤ c && c ≤ '7'

/-- The character of digits in a base, as one byte. -/
def byteOf (base : Nat) (digits : Bytes) : Char :=
  Char.ofNat (((Arithmetic.digitsIn? base digits).getD 0) % 256)

/-- The escapes of one character. -/
def namedEscape? : Char → Option Char
  | '\\' => some '\\'
  | 'a' => some '\x07'
  | 'b' => some '\x08'
  | 'e' => some '\x1b'
  | 'f' => some '\x0c'
  | 'n' => some '\n'
  | 'r' => some '\r'
  | 't' => some '\t'
  | 'v' => some '\x0b'
  | _ => none

/-- The character that an escape stands for and the number of characters after the backslash that
it takes. -/
def escape? (e : Escapes) : Bytes → Option (Char × Nat)
  | [] => none
  | c :: rest =>
    match namedEscape? c with
    | some d => some (d, 1)
    | none =>
      if e.leadingZero ∧ c = '0' then
        let digits := (rest.take 3).takeWhile isOctal
        some (byteOf 8 ('0' :: digits), digits.length + 1)
      else if isOctal c then
        let digits := ((c :: rest).take 3).takeWhile isOctal
        some (byteOf 8 digits, digits.length)
      else if e.hexadecimal ∧ c = 'x' then
        let digits := (rest.take 2).takeWhile fun d => (Arithmetic.digit? 16 d).isSome
        if digits.isEmpty then none else some (byteOf 16 digits, digits.length + 1)
      else none

/-- A text with its escapes read; `skip` counts characters of an escape that is still being
passed over. -/
def unescapeFrom (e : Escapes) : Nat → Bytes → Bytes × Bool
  | _, [] => ([], false)
  | skip + 1, _ :: cs => unescapeFrom e skip cs
  | 0, '\\' :: cs =>
    if e.stops ∧ cs.head? = some 'c' then ([], true)
    else
      match escape? e cs with
      | some (c, n) =>
        let (text, stopped) := unescapeFrom e n cs
        (c :: text, stopped)
      | none =>
        let (text, stopped) := unescapeFrom e 0 cs
        ('\\' :: text, stopped)
  | 0, c :: cs =>
    let (text, stopped) := unescapeFrom e 0 cs
    (c :: text, stopped)

def unescape (e : Escapes) (s : Bytes) : Bytes × Bool := unescapeFrom e 0 s

namespace Format

structure Field where
  flags : Bytes := []
  width : Option Nat := none
  precision : Option Nat := none
  deriving Repr

namespace Field

def has (f : Field) (c : Char) : Bool := f.flags.contains c

def pad (f : Field) (text : Bytes) : Bytes :=
  let blanks := List.replicate (f.width.getD 0 - text.length) ' '
  if f.has '-' then text ++ blanks else blanks ++ text

def cut (f : Field) (text : Bytes) : Bytes :=
  match f.precision with
  | some n => text.take n
  | none => text

/-- Puts a sign before digits and fills them up, with zeros where the flags say so. -/
def padNumber (f : Field) (sign digits : Bytes) : Bytes :=
  let digits := List.replicate (f.precision.getD 1 - digits.length) '0' ++ digits
  let zeros := if f.has '0' ∧ !f.has '-' ∧ f.precision.isNone
    then f.width.getD 0 - sign.length - digits.length else 0
  f.pad (sign ++ List.replicate zeros '0' ++ digits)

def signed (f : Field) (n : Int64) : Bytes :=
  let sign := if n < 0 then ['-'] else if f.has '+' then ['+'] else if f.has ' ' then [' '] else []
  f.padNumber sign (Nat.toDigits 10 n.toInt.natAbs)

def unsigned (f : Field) (base : Nat) (upper : Bool) (n : Int64) : Bytes :=
  let digits := Nat.toDigits base n.toUInt64.toNat
  let digits := if upper then digits.map Char.toUpper else digits
  let sign := if f.has '#' ∧ n ≠ 0 then
      match base with
      | 16 => ['0', if upper then 'X' else 'x']
      | 8 => ['0']
      | _ => []
    else []
  f.padNumber sign digits

end Field

structure Progress where
  text : Bytes := []
  arguments : List Bytes
  used : Bool := false
  /-- What is wrong with arguments or the format, the newest first. -/
  faults : List String := []
  stopped : Bool := false

namespace Progress

def put (p : Progress) (text : Bytes) : Progress := { p with text := p.text ++ text }

def fault (p : Progress) (message : String) : Progress :=
  { p with faults := message :: p.faults }

def next (p : Progress) : Bytes × Progress :=
  match p.arguments with
  | [] => ([], { p with used := true })
  | a :: rest => (a, { p with arguments := rest, used := true })

/-- The number in the next argument. After a quote it is that of a character. -/
def nextNumber (p : Progress) : Int64 × Progress :=
  let (a, p) := p.next
  match a with
  | [] => (0, p)
  | '\'' :: c :: _ | '"' :: c :: _ => (Int64.ofNat c.toNat, p)
  | _ =>
    match Arithmetic.number? a with
    | some n => (n, p)
    | none =>
      let digits := a.takeWhile Char.isDigit
      match Arithmetic.number? digits with
      | some n =>
        if digits.isEmpty then (0, p.fault (a.toText ++ ": expected numeric value"))
        else (n, p.fault (a.toText ++ ": not completely converted"))
      | none => (0, p.fault (a.toText ++ ": not completely converted"))

end Progress

/-- A width or a precision: digits, or a star for the next argument. -/
def size (p : Progress) (s : Bytes) : Option Nat × Progress × Bytes :=
  match s with
  | '*' :: s =>
    let (n, p) := p.nextNumber
    (some n.toInt.toNat, p, s)
  | _ =>
    let digits := s.takeWhile Char.isDigit
    (Arithmetic.digitsIn? 10 digits, p, s.drop digits.length)

/-- Writes one argument in the way that a character says. -/
def convert (e : Escapes) (p : Progress) (f : Field) (c : Char) : Progress :=
  match c with
  | 's' =>
    let (a, p) := p.next
    p.put (f.pad (f.cut a))
  | 'b' =>
    let (a, p) := p.next
    let (text, stopped) := unescape { e with leadingZero := true, stops := true } a
    { p.put (f.pad (f.cut text)) with stopped }
  | 'c' =>
    let (a, p) := p.next
    p.put (f.pad [a.headD '\x00'])
  | 'd' | 'i' =>
    let (n, p) := p.nextNumber
    p.put (f.signed n)
  | 'u' =>
    let (n, p) := p.nextNumber
    p.put (f.unsigned 10 false n)
  | 'o' =>
    let (n, p) := p.nextNumber
    p.put (f.unsigned 8 false n)
  | 'x' | 'X' =>
    let (n, p) := p.nextNumber
    p.put (f.unsigned 16 (c = 'X') n)
  | c => { p.fault ("%" ++ String.singleton c ++ ": invalid directive") with stopped := true }

/-- Writes a format once, as far as the fuel goes: one for every character. -/
def once (e : Escapes) : Nat → Bytes → Progress → Progress
  | 0, _, p => p
  | _, [], p => p
  | fuel + 1, '\\' :: s, p =>
    match escape? e s with
    | some (c, n) => once e fuel (s.drop n) (p.put [c])
    | none => once e fuel s (p.put ['\\'])
  | fuel + 1, '%' :: '%' :: s, p => once e fuel s (p.put ['%'])
  | fuel + 1, '%' :: s, p =>
    let flags := s.takeWhile fun c => "-+ 0#".toList.contains c
    let (width, p, s) := size p (s.drop flags.length)
    let (precision, p, s) :=
      match s with
      | '.' :: s =>
        let (n, p, s) := size p s
        (some (n.getD 0), p, s)
      | s => (none, p, s)
    match s with
    | [] => { p.fault "missing format character" with stopped := true }
    | c :: s =>
      let p := convert e p { flags, width, precision } c
      if p.stopped then p else once e fuel s p
  | fuel + 1, c :: s, p => once e fuel s (p.put [c])

def renderFrom (e : Escapes) (format : Bytes) : Nat → Progress → Progress
  | 0, p => p
  | fuel + 1, p =>
    let p := once e format.length format { p with used := false }
    if p.stopped || !p.used || p.arguments.isEmpty then p else renderFrom e format fuel p

/-- A format with arguments, used again while arguments are left, what is wrong with them, and
whether something ended the output. -/
def render (e : Escapes) (format : Bytes) (arguments : List Bytes) :
    Bytes × List String × Bool :=
  let p := renderFrom e format (arguments.length + 1) { arguments }
  (p.text, p.faults.reverse, p.stopped)

end Format
end Shell
end Conveyor
