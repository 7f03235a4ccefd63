import Conveyor.Decimal
import Conveyor.Text.Digits

/-!
# Conveyor.Yaml.PlainValue

What a plain text stands for: nothing, a truth value, a number, or itself.

* `PlainValue.of` — the kind of value that a plain text spells.
* `count?`        — the 64-bit count that it spells.

A number with a useless zero in front spells no number, so that names such as `007` stay what
they are.
-/

namespace Conveyor
namespace Yaml

inductive PlainValue where
  | null
  | bool (b : Bool)
  | integer
  | float
  | text
  deriving DecidableEq, Repr

def isNullWord (s : String) : Bool := ["null", "Null", "NULL", "~"].contains s

def boolWord? (s : String) : Option Bool :=
  match s with
  | "true" | "True" | "TRUE" => some true
  | "false" | "False" | "FALSE" => some false
  | _ => none

/-! ## Integers -/

def isSign (c : Char) : Bool := c = '+' || c = '-'

def dropSign : List Char → List Char
  | [] => []
  | c :: cs => if isSign c then cs else c :: cs

/-- Digits only, with a useless zero in front. -/
def hasUselessZero (s : List Char) : Bool :=
  match dropSign s with
  | '0' :: d :: ds => (d :: ds).all Char.isDigit
  | _ => false

/-- A natural number in base ten, or in another base behind its mark. -/
def magnitude? : List Char → Option Nat
  | '0' :: 'x' :: cs => Text.natural? 16 cs
  | '0' :: 'o' :: cs => Text.natural? 8 cs
  | '0' :: 'b' :: cs => Text.natural? 2 cs
  | cs => Text.natural? 10 cs

/-- A number without a sign other than one plus, below a bound. -/
def unsigned? (bound : Nat) (s : List Char) : Option Nat :=
  if hasUselessZero s then none
  else
    (magnitude? (match s with
      | '+' :: cs => cs
      | cs => cs)).filter (· < bound)

/-- A number behind a minus, not above a bound. -/
def negated? (bound : Nat) (s : List Char) : Option Nat :=
  if hasUselessZero s then none
  else
    match s with
    | '-' :: cs => (magnitude? cs).filter (· ≤ bound)
    | _ => none

/-- The 64-bit count that a text spells. -/
def count? (s : String) : Option UInt64 := (unsigned? UInt64.size s.toList).map UInt64.ofNat

/-! ## Floats -/

def exponent? (s : List Char) : Option Int :=
  match s with
  | '-' :: cs => (Text.natural? 10 cs).map fun n => -n
  | '+' :: cs => (Text.natural? 10 cs).map fun n => n
  | cs => (Text.natural? 10 cs).map fun n => n

/-- A number with an optional point and exponent, and a digit before or after the point, that
is finite as a double. -/
def isDecimal (s : List Char) : Bool :=
  let s := dropSign s
  let whole := s.takeWhile Char.isDigit
  let rest := s.drop whole.length
  let fraction :=
    match rest with
    | '.' :: cs => cs.takeWhile Char.isDigit
    | _ => []
  let rest :=
    match rest with
    | '.' :: _ => rest.drop (fraction.length + 1)
    | _ => rest
  let exponent :=
    match rest with
    | [] => some 0
    | c :: cs => if c = 'e' || c = 'E' then exponent? cs else none
  match Text.natural? 10 (whole ++ fraction), exponent with
  | some n, some e => Decimal.isFinite n (e - fraction.length)
  | _, _ => false

def isFloat (s : String) : Bool :=
  let afterPlus :=
    match s.toList with
    | '+' :: cs => if cs.head?.any isSign then none else some cs
    | cs => some cs
  (afterPlus.any fun cs => [".inf", ".Inf", ".INF"].contains (String.ofList cs))
    || ["-.inf", "-.Inf", "-.INF", ".nan", ".NaN", ".NAN"].contains s
    || afterPlus.any isDecimal

/-! ## Kinds -/

def isInteger (s : List Char) : Bool :=
  (unsigned? (Nat.pow 2 128) s).isSome || (negated? (Nat.pow 2 127) s).isSome

def PlainValue.of (s : String) : PlainValue :=
  if s.isEmpty || isNullWord s then .null
  else
    match boolWord? s with
    | some b => .bool b
    | none =>
      if isInteger s.toList then .integer
      else if !hasUselessZero s.toList && isFloat s then .float
      else .text

end Yaml
end Conveyor
