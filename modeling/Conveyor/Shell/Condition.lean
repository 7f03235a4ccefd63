import Conveyor.Shell.Arithmetic
import Conveyor.Shell.Machine

/-!
# Conveyor.Shell.Condition

The conditions that `test` decides.

* `Condition.evaluate` — the value of a condition, or what is wrong with it.
* `entryTest?`, `compare?` — conditions on paths and on numbers.
-/

namespace Conveyor
namespace Shell
namespace Condition

def numberOf (s : Bytes) : Except String Int64 :=
  let digits := if s.head? = some '-' then s.drop 1 else s
  if digits.isEmpty || !digits.all Char.isDigit then .error ("Illegal number: " ++ s.toText)
  else .ok ((Arithmetic.number? (if s.head? = some '-' then '-' :: digits.dropWhile (· = '0')
    else digits.dropWhile (· = '0'))).getD 0)

def compare? (sign : String) (a b : Int64) : Option Bool :=
  match sign with
  | "-eq" => some (a = b)
  | "-ne" => some (a ≠ b)
  | "-lt" => some (a < b)
  | "-le" => some (a ≤ b)
  | "-gt" => some (b < a)
  | "-ge" => some (b ≤ a)
  | _ => none

def isComparison (sign : String) : Bool := (compare? sign 0 0).isSome

def entryTest? (m : Machine) (sign : String) (written : Bytes) : Option Bool :=
  let entry := m.workspace.entryAt? m.folder written.toText
  match sign with
  | "-e" | "-r" | "-w" => some entry.isSome
  | "-f" => some (entry matches some (.file _))
  | "-d" => some (entry = some .folder)
  | "-x" => some (entry = some .folder)
  | "-s" => some (match entry with
      | some (.file content) => !content.isEmpty
      | some .folder => true
      | _ => false)
  | "-c" => some (entry = some .nothing)
  | "-h" | "-L" | "-p" | "-b" | "-S" => some false
  | _ => none

def unaryTest (m : Machine) (sign value : Bytes) : Except String Bool :=
  match sign.toText with
  | "-n" => .ok !value.isEmpty
  | "-z" => .ok value.isEmpty
  | "-t" => .ok false
  | s =>
    match entryTest? m s value with
    | some b => .ok b
    | none => .error (s ++ ": unexpected operator")

def binaryTest (a sign b : Bytes) : Except String Bool :=
  match sign.toText with
  | "=" | "==" => .ok (a = b)
  | "!=" => .ok (a ≠ b)
  | "<" => .ok (String.ofList a < String.ofList b)
  | ">" => .ok (String.ofList b < String.ofList a)
  | s =>
    if isComparison s then
      match numberOf a, numberOf b with
      | .error e, _ => .error e
      | _, .error e => .error e
      | .ok x, .ok y => .ok ((compare? s x y).getD false)
    else .error (a.toText ++ ": unexpected operator")

def isBinary (sign : Bytes) : Bool :=
  ["=", "==", "!=", "<", ">"].contains sign.toText || isComparison sign.toText

/-- The value of a condition, as far as the fuel goes: one for every word. -/
def evaluate (m : Machine) : Nat → List Bytes → Except String Bool
  | 0, _ => .ok false
  | _, [] => .ok false
  | _, [a] => .ok !a.isEmpty
  | _ + 1, [a, b] => if a = ['!'] then .ok b.isEmpty else unaryTest m a b
  | fuel + 1, a :: b :: c :: rest =>
    if rest.isEmpty ∧ isBinary b then binaryTest a b c
    else
      match splitAt "-o" (a :: b :: c :: rest) with
      | some (l, r) =>
        match evaluate m fuel l with
        | .ok false => evaluate m fuel r
        | other => other
      | none =>
        match splitAt "-a" (a :: b :: c :: rest) with
        | some (l, r) =>
          match evaluate m fuel l with
          | .ok true => evaluate m fuel r
          | other => other
        | none =>
          if a = ['!'] then (evaluate m fuel (b :: c :: rest)).map (!·)
          else if a = ['('] ∧ (c :: rest).getLast? = some [')'] then
            evaluate m fuel (b :: (c :: rest).dropLast)
          else .error (a.toText ++ ": unexpected operator")
where
  /-- The words around the first one that is a given sign, with words on both sides. -/
  splitAt (sign : String) (words : List Bytes) : Option (List Bytes × List Bytes) :=
    match words.span fun w => w ≠ sign.toList with
    | (_, []) => none
    | (l, _ :: r) => if l.isEmpty || r.isEmpty then none else some (l, r)

end Condition
end Shell
end Conveyor
