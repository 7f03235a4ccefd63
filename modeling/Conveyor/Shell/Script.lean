import Conveyor.Text.Bytes

/-!
# Conveyor.Shell.Script

The commands of a shell script.

* `Piece`    — a part of a word: text, or something that is expanded.
* `Command`  — simple commands, and those made of other commands.
* `Script`   — lines that run one after the other, and perhaps a flaw that ends the reading.
-/

namespace Conveyor
namespace Shell

inductive Action where
  | plain
  | length
  /-- Another word where there is no value. An empty value counts as none if `orEmpty`. -/
  | default (orEmpty : Bool)
  | assign (orEmpty : Bool)
  | demand (orEmpty : Bool)
  /-- Another word where there is a value. -/
  | alternative (orEmpty : Bool)
  /-- Without what a pattern matches at the start or at the end. -/
  | dropStart (longest : Bool)
  | dropEnd (longest : Bool)
  /-- None that there is; it is refused when it is expanded. -/
  | unknown
  deriving DecidableEq, Repr, Inhabited

inductive RedirectKind where
  | read
  | write
  | append
  /-- The same target as another descriptor. -/
  | duplicate
  /-- Text of the script itself as input. -/
  | here
  deriving DecidableEq, Repr, Inhabited

mutual

inductive Piece where
  | text (s : Bytes) (quoted : Bool)
  | parameter (name : Bytes) (action : Action) (word : List Piece) (quoted : Bool)
  | output (script : List Command) (quoted : Bool)
  | arithmetic (body : List Piece) (quoted : Bool)

inductive Redirect where
  | mk (descriptor : Nat) (kind : RedirectKind) (target : List Piece)

inductive Command where
  | simple (line : Nat) (assignments : List (Bytes × List Piece)) (words : List (List Piece))
      (redirects : List Redirect)
  | pipeline (negated : Bool) (parts : List Command)
  | both (a b : Command)
  | either (a b : Command)
  | group (body : List Command) (redirects : List Redirect)
  | subshell (body : List Command) (redirects : List Redirect)
  | branch (test body other : List Command) (redirects : List Redirect)
  | loop (untilTrue : Bool) (test body : List Command) (redirects : List Redirect)
  | each (name : Bytes) (words : Option (List (List Piece))) (body : List Command)
      (redirects : List Redirect)
  | choose (word : List Piece) (cases : List (List (List Piece) × List Command))
      (redirects : List Redirect)
  | define (name : Bytes) (body : Command)
  /-- Beside what comes after it. -/
  | background (c : Command)

end

deriving instance Inhabited for Piece, Command

inductive Flaw where
  | unterminatedQuote
  | unterminatedBackquote
  | badLoopVariable
  | missing (what : String)
  /-- A word or sign that cannot stand there. -/
  | unexpected (what : String) (expecting : Option String)
  deriving DecidableEq, Repr, Inhabited

def Flaw.message : Flaw → String
  | .unterminatedQuote => "Unterminated quoted string"
  | .unterminatedBackquote => "EOF in backquote substitution"
  | .badLoopVariable => "Bad for loop variable"
  | .missing what => "Missing '" ++ what ++ "'"
  | .unexpected what none => what ++ " unexpected"
  | .unexpected what (some expecting) => what ++ " unexpected (expecting " ++ expecting ++ ")"

/-- Every line is read when all before it have run. -/
structure Script where
  lines : List (List Command) := []
  /-- The flaw with the number of its line. -/
  flaw : Option (Nat × Flaw) := none

end Shell
end Conveyor
