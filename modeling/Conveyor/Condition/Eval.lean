import Conveyor.Condition.Expr
import Conveyor.Glob
import Conveyor.Trigger

/-!
# Conveyor.Condition.Eval

The meaning of conditions.

* `Value`         — booleans and strings, either of which can stand where the other is wanted.
* `Context`       — the trigger and the outcomes of the direct dependencies.
* `Expr.eval`     — the value of a tree; `&&` and `||` leave out an operand that cannot matter.
* `Expr.evaluate` — the value as a decision.
-/

namespace Conveyor
namespace Condition

inductive Value where
  | bool (b : Bool)
  | str (s : String)
  deriving DecidableEq, Repr

/-- A string counts as true when it is not empty. -/
def Value.truthy : Value → Bool
  | .bool b => b
  | .str s => !s.isEmpty

def Value.text : Value → String
  | .bool true => "true"
  | .bool false => "false"
  | .str s => s

structure Context where
  trigger : Trigger
  dependencies : Dependencies

inductive EvalError where
  | notADependency (stage : String)
  | badPattern (pattern : String) (flaw : Glob.Flaw)
  | unknownIdentifier (name : String)
  | unknownFunction (name : String)
  | arity (name : String) (want got : Nat)
  deriving DecidableEq, Repr

def EvalError.message : EvalError → String
  | .notADependency stage => "outcome('" ++ stage ++ "') does not name a direct dependency"
  | .badPattern pattern flaw => (flaw.toError pattern).message
  | .unknownIdentifier name => unknownIdentifierText name
  | .unknownFunction name => unknownFunctionText name
  | .arity name want got => arityText name want got

def Fact.value (ctx : Context) : Fact → String
  | .event => ctx.trigger.event.name
  | .ref => ctx.trigger.ref
  | .branch => ctx.trigger.branch

def Function.apply (ctx : Context) (name : String) (f : Function) (args : List Value) :
    Except EvalError Value :=
  match f, args with
  | .always, [] => .ok (.bool true)
  | .success, [] => .ok (.bool (ctx.dependencies.all fun (_, o) => o.satisfies))
  | .failure, [] => .ok (.bool (ctx.dependencies.any fun (_, o) => o = .failed false))
  | .skipped, [] => .ok (.bool (ctx.dependencies.any fun (_, o) => o = .skipped))
  | .outcome, [stage] =>
    match ctx.dependencies.lookup stage.text with
    | some o => .ok (.str o.name)
    | none => .error (.notADependency stage.text)
  | .globMatch, [value, pattern] =>
    match Glob.compile pattern.text with
    | .ok g => .ok (.bool (g.accepts value.text))
    | .error flaw => .error (.badPattern pattern.text flaw)
  | .contains, [text, part] => .ok (.bool (Text.contains text.text part.text))
  | .startsWith, [text, part] => .ok (.bool (Text.startsWith text.text part.text))
  | .endsWith, [text, part] => .ok (.bool (Text.endsWith text.text part.text))
  | f, args => .error (.arity name f.arity args.length)

namespace Expr

mutual

def eval (ctx : Context) : Expr → Except EvalError Value
  | .bool b => .ok (.bool b)
  | .str s => .ok (.str s)
  | .fact name =>
    match Fact.ofName? name with
    | some f => .ok (.str (f.value ctx))
    | none => .error (.unknownIdentifier name)
  | .not e =>
    match eval ctx e with
    | .error err => .error err
    | .ok v => .ok (.bool (!v.truthy))
  | .and a b =>
    match eval ctx a with
    | .error err => .error err
    | .ok v =>
      if v.truthy then
        match eval ctx b with
        | .error err => .error err
        | .ok w => .ok (.bool w.truthy)
      else .ok (.bool false)
  | .or a b =>
    match eval ctx a with
    | .error err => .error err
    | .ok v =>
      if v.truthy then .ok (.bool true)
      else
        match eval ctx b with
        | .error err => .error err
        | .ok w => .ok (.bool w.truthy)
  | .eq a b =>
    match eval ctx a with
    | .error err => .error err
    | .ok v =>
      match eval ctx b with
      | .error err => .error err
      | .ok w => .ok (.bool (v = w))
  | .ne a b =>
    match eval ctx a with
    | .error err => .error err
    | .ok v =>
      match eval ctx b with
      | .error err => .error err
      | .ok w => .ok (.bool (v ≠ w))
  | .call name args =>
    match Function.ofName? name with
    | none => .error (.unknownFunction name)
    | some f =>
      if args.length = f.arity then
        match evalAll ctx args with
        | .error err => .error err
        | .ok values => f.apply ctx name values
      else .error (.arity name f.arity args.length)

def evalAll (ctx : Context) : List Expr → Except EvalError (List Value)
  | [] => .ok []
  | e :: rest =>
    match eval ctx e with
    | .error err => .error err
    | .ok v =>
      match evalAll ctx rest with
      | .error err => .error err
      | .ok vs => .ok (v :: vs)

end

def evaluate (ctx : Context) (e : Expr) : Except EvalError Bool :=
  match eval ctx e with
  | .error err => .error err
  | .ok v => .ok v.truthy

end Expr
end Condition
end Conveyor
