import Conveyor.Error
import Conveyor.Text.Quoted
import Conveyor.Text.Search

/-!
# Conveyor.Secret

Secrets of a stage, held while its command runs.

* `Lease.acquire` — every named secret, or the error of the first one that is missing.
* `Lease.mask`    — a text with the values hidden, one secret after the other.
* `Lease.summary` — a description that tells the names and never the values.
-/

namespace Conveyor

/-- Where the values of secrets come from. -/
abbrev SecretProvider := String → Option String

/-- The secrets of a stage in the order in which it lists them. -/
structure Lease where
  stage : String
  secrets : List (String × String)
  deriving DecidableEq, Repr, Inhabited

namespace Lease

def acquireFrom (provider : SecretProvider) (stage : String) :
    List String → Except Error (List (String × String))
  | [] => .ok []
  | name :: rest =>
    match provider name with
    | none => .error (.secretUnavailable stage name)
    | some value => (acquireFrom provider stage rest).map ((name, value) :: ·)

def acquire (provider : SecretProvider) (stage : String) (names : List String) :
    Except Error Lease :=
  match acquireFrom provider stage names with
  | .error e => .error e
  | .ok secrets => .ok ⟨stage, secrets⟩

def size (l : Lease) : Nat := l.secrets.length

def isEmpty (l : Lease) : Bool := l.secrets.isEmpty

def maskText : List Char := "***".toList

/-- Hides one value. An empty value hides nothing. -/
def maskValue (text : List Char) (value : String) : List Char :=
  if value.isEmpty then text else Text.replaceAll value.toList maskText text

def mask (l : Lease) (text : String) : String :=
  String.ofList ((l.secrets.map (·.2)).foldl maskValue text.toList)

def summary (l : Lease) : String :=
  "SecretLease \x7b stage: " ++ Text.quoted l.stage ++ ", names: [" ++
    ", ".intercalate (l.secrets.map fun (name, _) => Text.quoted name) ++ "] \x7d"

end Lease
end Conveyor
