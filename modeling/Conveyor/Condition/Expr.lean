import Conveyor.Condition.Token

/-!
# Conveyor.Condition.Expr

The trees of conditions, and the rules on the names in them.

* `Expr`       — literals, facts, calls, and the boolean and comparing operators.
* `Function`   — the functions that conditions can call, with their arities.
* `Expr.check` — the first name or argument count that is wrong, from the left, also in operands
                 that are never evaluated.

The check has tables of its own, `factNames` and `functionArity?`; evaluation goes by `Fact` and
`Function`.
-/

namespace Conveyor
namespace Condition

inductive Expr where
  | bool (b : Bool)
  | str (s : String)
  | fact (name : String)
  | call (name : String) (args : List Expr)
  | not (e : Expr)
  | and (a b : Expr)
  | or (a b : Expr)
  | eq (a b : Expr)
  | ne (a b : Expr)
  deriving Repr, Inhabited

/-- What a condition can read of the trigger. -/
inductive Fact where
  | event
  | ref
  | branch
  deriving DecidableEq, Repr

def Fact.ofName? (name : String) : Option Fact :=
  match name with
  | "event" => some .event
  | "ref" => some .ref
  | "branch" => some .branch
  | _ => none

inductive Function where
  | always
  | success
  | failure
  | skipped
  | outcome
  | globMatch
  | contains
  | startsWith
  | endsWith
  deriving DecidableEq, Repr

namespace Function

def ofName? (name : String) : Option Function :=
  match name with
  | "always" => some .always
  | "success" => some .success
  | "failure" => some .failure
  | "skipped" => some .skipped
  | "outcome" => some .outcome
  | "matches" => some .globMatch
  | "contains" => some .contains
  | "startsWith" => some .startsWith
  | "endsWith" => some .endsWith
  | _ => none

def arity : Function → Nat
  | .always | .success | .failure | .skipped => 0
  | .outcome => 1
  | .globMatch | .contains | .startsWith | .endsWith => 2

end Function

/-- The facts that the check lets pass. -/
def factNames : List String := ["event", "ref", "branch"]

/-- The number of arguments that the check asks of a call. -/
def functionArity? (name : String) : Option Nat :=
  match name with
  | "always" | "success" | "failure" | "skipped" => some 0
  | "outcome" => some 1
  | "matches" | "contains" | "startsWith" | "endsWith" => some 2
  | _ => none

namespace Expr

mutual

/-- Refuses the first unknown name or wrong number of arguments. -/
def check : Expr → Except SyntaxError Unit
  | .bool _ | .str _ => .ok ()
  | .fact name => if factNames.contains name then .ok () else .error (.unknownIdentifier name)
  | .not e => check e
  | .and a b | .or a b | .eq a b | .ne a b =>
    match check a with
    | .error e => .error e
    | .ok () => check b
  | .call name args =>
    match functionArity? name with
    | none => .error (.unknownFunction name)
    | some arity =>
      if args.length = arity then checkAll args else .error (.arity name arity args.length)

def checkAll : List Expr → Except SyntaxError Unit
  | [] => .ok ()
  | e :: rest =>
    match check e with
    | .error err => .error err
    | .ok () => checkAll rest

end

end Expr
end Condition
end Conveyor
