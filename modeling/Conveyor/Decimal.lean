/-!
# Conveyor.Decimal

Decimal numbers beside binary ones: durations in seconds with two decimal places, and the range of
doubles.

* `roundDiv`  — a quotient rounded to the nearest integer, a half to the even one.
* `Binary`    — a number `m · 2^e`; `Binary.nearest` is the one with 53 binary digits that is
                nearest to a quotient.
* `seconds`   — milliseconds as seconds: the nearest binary number, divided by a thousand in
                binary, and then written exactly with two places.
* `isFinite`  — a decimal number does not round to infinity.
-/

namespace Conveyor
namespace Decimal

/-- The nearest integer to a quotient; a half goes to the even one. -/
def roundDiv (num den : Nat) : Nat :=
  let q := num / den
  let r := num % den
  if 2 * r < den then q
  else if den < 2 * r then q + 1
  else if q % 2 = 0 then q else q + 1

/-- A number with a binary exponent. -/
structure Binary where
  digits : Nat
  exponent : Int
  deriving DecidableEq, Repr

def Binary.fraction (b : Binary) : Nat × Nat :=
  if 0 ≤ b.exponent then (b.digits * Nat.pow 2 b.exponent.toNat, 1)
  else (b.digits, Nat.pow 2 (-b.exponent).toNat)

/-- The quotient scaled by a power of two and rounded. -/
def Binary.atExponent (num den : Nat) (e : Int) : Binary :=
  if 0 ≤ e then ⟨roundDiv num (den * Nat.pow 2 e.toNat), e⟩
  else ⟨roundDiv (num * Nat.pow 2 (-e).toNat) den, e⟩

/-- The nearest number with 53 binary digits. The exponent is the least one at which the
quotient has no more digits. -/
def Binary.nearest (num den : Nat) : Binary :=
  if num = 0 then ⟨0, 0⟩
  else
    let guess : Int := (Nat.log2 num : Int) - Nat.log2 den - 53
    let low := atExponent num den guess
    if low.digits < Nat.pow 2 53 then low else atExponent num den (guess + 1)

def hundredths (n : Nat) : String :=
  toString (n / 100) ++ "." ++ toString (n / 10 % 10) ++ toString (n % 10)

/-- Milliseconds as seconds with two places. -/
def seconds (millis : Nat) : String :=
  let (a, b) := (Binary.nearest millis 1).fraction
  let (c, d) := (Binary.nearest a (1000 * b)).fraction
  hundredths (roundDiv (100 * c) d)

/-! ## Range -/

/-- Half a step above the largest double: what is not below it rounds to infinity. -/
def overflowBound : Nat := Nat.pow 2 1024 - Nat.pow 2 970

/-- The number `n * 10 ^ e` rounds to a finite double. -/
def isFinite (n : Nat) (e : Int) : Bool :=
  let magnitude : Int := (Nat.toDigits 10 n).length + e
  if n = 0 || magnitude < 309 then true
  else if 309 < magnitude then false
  else if 0 ≤ e then n * Nat.pow 10 e.toNat < overflowBound
  else n < overflowBound * Nat.pow 10 (-e).toNat

end Decimal
end Conveyor
