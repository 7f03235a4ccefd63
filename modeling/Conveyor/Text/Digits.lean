/-!
# Conveyor.Text.Digits

Numbers as rows of digits.

* `digit?`   — the value of a digit in a base of at most sixteen.
* `natural?` — the number that a row of digits spells; an empty row spells none.
-/

namespace Conveyor
namespace Text

def hexValue? (c : Char) : Option Nat :=
  if '0' ≤ c ∧ c ≤ '9' then some (c.toNat - 48)
  else if 'a' ≤ c ∧ c ≤ 'f' then some (c.toNat - 87)
  else if 'A' ≤ c ∧ c ≤ 'F' then some (c.toNat - 55)
  else none

def digit? (base : Nat) (c : Char) : Option Nat := (hexValue? c).filter (· < base)

def appendDigits (base : Nat) : Nat → List Char → Option Nat
  | n, [] => some n
  | n, c :: cs =>
    match digit? base c with
    | some d => appendDigits base (base * n + d) cs
    | none => none

def natural? (base : Nat) (digits : List Char) : Option Nat :=
  if digits.isEmpty then none else appendDigits base 0 digits

end Text
end Conveyor
