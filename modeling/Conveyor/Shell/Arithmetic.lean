import Conveyor.Text.Bytes

/-!
# Conveyor.Shell.Arithmetic

Calculations of a shell, in words of 64 bits.

* `Expr`          — a calculation.
* `Expr.parse`    — reads one.
* `Expr.evaluate` — its value, with the variables that it sets.

Only the operand that a condition selects is evaluated.
-/

namespace Conveyor
namespace Shell
namespace Arithmetic

inductive Operator where
  | times | over | rest
  | plus | minus
  | shiftLeft | shiftRight
  | less | atMost | greater | atLeast
  | equal | different
  | bitAnd | bitXor | bitOr
  | both | either
  deriving DecidableEq, Repr

namespace Operator

/-- How tightly an operator binds; a greater level binds more tightly. -/
def level : Operator → Nat
  | .times | .over | .rest => 10
  | .plus | .minus => 9
  | .shiftLeft | .shiftRight => 8
  | .less | .atMost | .greater | .atLeast => 7
  | .equal | .different => 6
  | .bitAnd => 5
  | .bitXor => 4
  | .bitOr => 3
  | .both => 2
  | .either => 1

/-- The operators by their signs, longer signs first. -/
def table : List (String × Operator) :=
  [("<<", .shiftLeft), (">>", .shiftRight), ("<=", .atMost), (">=", .atLeast), ("==", .equal),
    ("!=", .different), ("&&", .both), ("||", .either), ("*", .times), ("/", .over), ("%", .rest),
    ("+", .plus), ("-", .minus), ("<", .less), (">", .greater), ("&", .bitAnd), ("^", .bitXor),
    ("|", .bitOr)]

/-- An operator on numbers, which an assignment may use. -/
def isArithmetic (o : Operator) : Bool := 3 ≤ o.level && o.level ≠ 6 && o.level ≠ 7

def ofBool (b : Bool) : Int64 := if b then 1 else 0

def result? (o : Operator) (a b : Int64) : Option Int64 :=
  match o with
  | .times => some (a * b)
  | .over => if b = 0 then none else some (a / b)
  | .rest => if b = 0 then none else some (a % b)
  | .plus => some (a + b)
  | .minus => some (a - b)
  | .shiftLeft => some (a <<< b)
  | .shiftRight => some (a >>> b)
  | .less => some (ofBool (a < b))
  | .atMost => some (ofBool (a ≤ b))
  | .greater => some (ofBool (b < a))
  | .atLeast => some (ofBool (b ≤ a))
  | .equal => some (ofBool (a = b))
  | .different => some (ofBool (a ≠ b))
  | .bitAnd => some (a &&& b)
  | .bitXor => some (a ^^^ b)
  | .bitOr => some (a ||| b)
  | .both => some (ofBool (a ≠ 0 && b ≠ 0))
  | .either => some (ofBool (a ≠ 0 || b ≠ 0))

end Operator

inductive Expr where
  | number (n : Int64)
  | name (x : String)
  | negate (a : Expr)
  | invert (a : Expr)
  | not (a : Expr)
  | apply (o : Operator) (a b : Expr)
  | choose (test a b : Expr)
  /-- Sets a variable, to a value or to what an operator makes of the old one. -/
  | assign (x : String) (o : Option Operator) (a : Expr)
  deriving Repr, Inhabited

inductive Fault where
  | divisionByZero
  | expectingPrimary
  | expectingEnd
  | expectingParenthesis
  | expectingColon
  /-- The value of a variable is no number. -/
  | illegalNumber (text : Bytes)
  deriving DecidableEq, Repr

def Fault.message (text : Bytes) : Fault → String
  | .illegalNumber value => "Illegal number: " ++ value.toText
  | f =>
    let what := match f with
      | .divisionByZero => "division by zero"
      | .expectingEnd => "expecting EOF"
      | .expectingParenthesis => "expecting ')'"
      | .expectingColon => "expecting ':'"
      | _ => "expecting primary"
    "arithmetic expression: " ++ what ++ ": \"" ++ text.toText ++ "\""

/-! ## Numbers -/

/-- The value of a digit in a base. -/
def digit? (base : Nat) (c : Char) : Option Nat :=
  let n := if c.isDigit then c.toNat - 48
    else if 'a' ≤ c ∧ c ≤ 'f' then c.toNat - 87
    else if 'A' ≤ c ∧ c ≤ 'F' then c.toNat - 55
    else 99
  if n < base then some n else none

def digitsIn? (base : Nat) (s : Bytes) : Option Nat :=
  if s.isEmpty then none
  else s.foldl (fun n c => do return base * (← n) + (← digit? base c)) (some 0)

/-- A number, in base 16 or 8 if it starts so. -/
def unsigned? : Bytes → Option Nat
  | '0' :: 'x' :: s | '0' :: 'X' :: s => digitsIn? 16 s
  | '0' :: s => if s.isEmpty then some 0 else digitsIn? 8 s
  | s => digitsIn? 10 s

def number? (s : Bytes) : Option Int64 :=
  let blank := fun c => c = ' ' || c = '\t' || c = '\n'
  let s := ((s.dropWhile blank).reverse.dropWhile blank).reverse
  match s with
  | [] => some 0
  | '-' :: s => (unsigned? s).map fun n => Int64.ofInt (-n)
  | '+' :: s => (unsigned? s).map fun n => Int64.ofInt n
  | s => (unsigned? s).map fun n => Int64.ofInt n

/-! ## Reading -/

abbrev Read := StateT Bytes (Except Fault)

def skipBlanks : Read Unit :=
  modify fun s => s.dropWhile fun c => c = ' ' || c = '\t' || c = '\n'

def take? (sign : String) : Read Bool := do
  skipBlanks
  let s ← get
  if s.take sign.length = sign.toList then
    set (s.drop sign.length)
    return true
  else return false

/-- The operator that comes next, if it binds so tightly; nothing is read. -/
def operator? (level : Nat) : Read (Option (String × Operator)) := do
  skipBlanks
  let s ← get
  return match Operator.table.find? fun e => s.take e.1.length = e.1.toList with
    | some e => if level ≤ e.2.level then some e else none
    | none => none

/-- The operator of an assignment that comes next, if there is one. -/
def assignment? : Read (Option (Option Operator)) := do
  skipBlanks
  let s ← get
  if s.head? = some '=' ∧ s[1]? ≠ some '=' then
    set (s.drop 1)
    return some none
  else
    let compound := Operator.table.find? fun e =>
      e.2.isArithmetic && s.take (e.1.length + 1) = e.1.toList ++ ['=']
    match compound with
    | some (sign, o) =>
      set (s.drop (sign.length + 1))
      return some (some o)
    | none => return none

mutual

/-- A number, a name, a calculation in parentheses, or one with a sign in front. -/
def primary : Nat → Read Expr
  | 0 => throw .expectingPrimary
  | fuel + 1 => do
    skipBlanks
    match (← get).head? with
    | none => throw .expectingPrimary
    | some c =>
      if c.isAlpha || c = '_' then
        let name := (← get).takeWhile fun c => c.isAlphanum || c = '_'
        set ((← get).drop name.length)
        match ← assignment? with
        | some o => return .assign (String.ofList name) o (← full fuel)
        | none => return .name (String.ofList name)
      else if c.isDigit then
        let digits := (← get).takeWhile Char.isAlphanum
        match unsigned? digits with
        | some n =>
          set ((← get).drop digits.length)
          return .number (Int64.ofInt n)
        | none => throw .expectingEnd
      else if ← take? "(" then
        let e ← full fuel
        if ← take? ")" then return e else throw .expectingParenthesis
      else if ← take? "!" then return .not (← primary fuel)
      else if ← take? "~" then return .invert (← primary fuel)
      else if ← take? "-" then return .negate (← primary fuel)
      else if ← take? "+" then primary fuel
      else throw .expectingPrimary

/-- Operators from a level on, after their first operand. -/
def operators : Nat → Nat → Expr → Read Expr
  | 0, _, a => return a
  | fuel + 1, level, a => do
    match ← operator? level with
    | none => return a
    | some (sign, o) =>
      discard (take? sign)
      let b ← operators fuel (o.level + 1) (← primary fuel)
      operators fuel level (.apply o a b)

/-- A calculation with conditions. -/
def full : Nat → Read Expr
  | 0 => throw .expectingPrimary
  | fuel + 1 => do
    let test ← operators fuel 1 (← primary fuel)
    if ← take? "?" then
      let a ← full fuel
      if !(← take? ":") then throw .expectingColon
      return .choose test a (← full fuel)
    else return test

end

def Expr.parse (text : Bytes) : Except Fault Expr :=
  match skipBlanks.run text with
  | .ok (_, []) => .ok (.number 0)
  | _ =>
    match (full (4 * text.length + 4)).run text with
    | .error f => .error f
    | .ok (e, rest) =>
      match skipBlanks.run rest with
      | .ok (_, []) => .ok e
      | _ => .error .expectingEnd

/-! ## Values -/

/-- The variables of a shell, as calculations see them. -/
abbrev Variables := String → Option Bytes

def valueOf (σ : Variables) (x : String) : Except Fault Int64 :=
  match σ x with
  | none => .ok 0
  | some value =>
    match number? value with
    | some n => .ok n
    | none => .error (.illegalNumber value)

def operate (o : Operator) (a b : Int64) : Except Fault Int64 :=
  match o.result? a b with
  | some v => .ok v
  | none => .error .divisionByZero

def render (n : Int64) : Bytes := (toString n.toInt).toList

/-- The value of a calculation, and the variables that were set on the way, the newest first. -/
def Expr.evaluate (σ : Variables) :
    Expr → List (String × Bytes) → Except Fault (Int64 × List (String × Bytes))
  | .number n, done => .ok (n, done)
  | .name x, done => (valueOf (fun y => done.lookup y <|> σ y) x).map (·, done)
  | .negate a, done => (a.evaluate σ done).map fun (v, done) => (-v, done)
  | .invert a, done => (a.evaluate σ done).map fun (v, done) => (~~~v, done)
  | .not a, done => (a.evaluate σ done).map fun (v, done) => (Operator.ofBool (v = 0), done)
  | .apply o a b, done =>
    match a.evaluate σ done with
    | .error f => .error f
    | .ok (v, done) =>
      if o = .both ∧ v = 0 then .ok (0, done)
      else if o = .either ∧ v ≠ 0 then .ok (1, done)
      else
        match b.evaluate σ done with
        | .error f => .error f
        | .ok (w, done) => (operate o v w).map (·, done)
  | .choose test a b, done =>
    match test.evaluate σ done with
    | .error f => .error f
    | .ok (v, done) => if v ≠ 0 then a.evaluate σ done else b.evaluate σ done
  | .assign x o a, done =>
    match a.evaluate σ done with
    | .error f => .error f
    | .ok (v, done) =>
      match o with
      | none => .ok (v, (x, render v) :: done)
      | some o =>
        match valueOf (fun y => done.lookup y <|> σ y) x with
        | .error f => .error f
        | .ok old =>
          match operate o old v with
          | .error f => .error f
          | .ok v => .ok (v, (x, render v) :: done)

end Arithmetic
end Shell
end Conveyor
