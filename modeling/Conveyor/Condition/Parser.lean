import Conveyor.Condition.Expr

/-!
# Conveyor.Condition.Parser

Reading conditions. The grammar, from the weakest operator to the strongest:

* an alternative is conjunctions joined by `||`, grouped from the left;
* a conjunction is negations joined by `&&`, grouped from the left;
* a negation is `!` before a negation, or a comparison;
* a comparison is a primary, or two of them around one `==` or `!=`;
* a primary is an alternative in parentheses, a literal, a word, or a call.

The readers take the tokens that are left and a fuel, which `parse` sets so high that it never
runs out: at most six readers are entered before a token is used up.
-/

namespace Conveyor
namespace Condition

abbrev Parsed (α : Type) := Except SyntaxError (α × List Token)

def expect (want : Token) : List Token → Except SyntaxError (List Token)
  | [] => .error (.expected want none)
  | t :: ts => if t = want then .ok ts else .error (.expected want (some t))

mutual

def readOr : Nat → List Token → Parsed Expr
  | 0, _ => .error .empty
  | fuel + 1, ts =>
    match readAnd fuel ts with
    | .error e => .error e
    | .ok (left, ts) => readOrRest fuel left ts

/-- The rest of an alternative after its first conjunctions. -/
def readOrRest : Nat → Expr → List Token → Parsed Expr
  | 0, _, _ => .error .empty
  | fuel + 1, left, ts =>
    match ts with
    | .either :: ts =>
      match readAnd fuel ts with
      | .error e => .error e
      | .ok (right, ts) => readOrRest fuel (.or left right) ts
    | ts => .ok (left, ts)

def readAnd : Nat → List Token → Parsed Expr
  | 0, _ => .error .empty
  | fuel + 1, ts =>
    match readUnary fuel ts with
    | .error e => .error e
    | .ok (left, ts) => readAndRest fuel left ts

/-- The rest of a conjunction after its first negations. -/
def readAndRest : Nat → Expr → List Token → Parsed Expr
  | 0, _, _ => .error .empty
  | fuel + 1, left, ts =>
    match ts with
    | .both :: ts =>
      match readUnary fuel ts with
      | .error e => .error e
      | .ok (right, ts) => readAndRest fuel (.and left right) ts
    | ts => .ok (left, ts)

def readUnary : Nat → List Token → Parsed Expr
  | 0, _ => .error .empty
  | fuel + 1, ts =>
    match ts with
    | .bang :: ts =>
      match readUnary fuel ts with
      | .error e => .error e
      | .ok (e, ts) => .ok (.not e, ts)
    | ts => readCompare fuel ts

def readCompare : Nat → List Token → Parsed Expr
  | 0, _ => .error .empty
  | fuel + 1, ts =>
    match readPrimary fuel ts with
    | .error e => .error e
    | .ok (left, .same :: ts) =>
      match readPrimary fuel ts with
      | .error e => .error e
      | .ok (right, ts) => .ok (.eq left right, ts)
    | .ok (left, .differs :: ts) =>
      match readPrimary fuel ts with
      | .error e => .error e
      | .ok (right, ts) => .ok (.ne left right, ts)
    | .ok (left, ts) => .ok (left, ts)

def readPrimary : Nat → List Token → Parsed Expr
  | 0, _ => .error .empty
  | fuel + 1, ts =>
    match ts with
    | [] => .error (.unexpected none)
    | .opening :: ts =>
      match readOr fuel ts with
      | .error e => .error e
      | .ok (e, ts) => (expect .closing ts).map fun ts => (e, ts)
    | .str s :: ts => .ok (.str s, ts)
    | .yes :: ts => .ok (.bool true, ts)
    | .no :: ts => .ok (.bool false, ts)
    | .word name :: .opening :: .closing :: ts => .ok (.call name [], ts)
    | .word name :: .opening :: ts =>
      match readArgs fuel ts with
      | .error e => .error e
      | .ok (args, ts) => (expect .closing ts).map fun ts => (.call name args, ts)
    | .word name :: ts => .ok (.fact name, ts)
    | t :: _ => .error (.unexpected (some t))

/-- The arguments of a call, at least one. -/
def readArgs : Nat → List Token → Parsed (List Expr)
  | 0, _ => .error .empty
  | fuel + 1, ts =>
    match readOr fuel ts with
    | .error e => .error e
    | .ok (arg, .comma :: ts) =>
      match readArgs fuel ts with
      | .error e => .error e
      | .ok (args, ts) => .ok (arg :: args, ts)
    | .ok (arg, ts) => .ok ([arg], ts)

end

def readAll (ts : List Token) : Except SyntaxError Expr :=
  match ts with
  | [] => .error .empty
  | _ =>
    match readOr (6 * ts.length + 6) ts with
    | .error e => .error e
    | .ok (_, t :: _) => .error (.trailing t)
    | .ok (e, []) => .ok e

/-- The tree of a condition, or the first thing that is wrong with it. -/
def parse (source : String) : Except SyntaxError Expr :=
  match Token.scan source with
  | .error e => .error e
  | .ok ts =>
    match readAll ts with
    | .error e => .error e
    | .ok e =>
      match e.check with
      | .error err => .error err
      | .ok () => .ok e

end Condition
end Conveyor
