import Conveyor.Text.Blank

/-!
# Conveyor.Condition.Token

The lexemes of conditions, and the errors that a condition's text can have.

* `Token`       — words, strings in either kind of quotes, literals, punctuation and operators.
* `Token.text`  — how a token is named in messages.
* `SyntaxError` — every reason to refuse a text.
* `Token.scan`  — the tokens of a text, with blanks between them passed over.

Positions in messages are offsets in bytes of the text in UTF-8.
-/

namespace Conveyor
namespace Condition

inductive Token where
  | word (name : String)
  | str (value : String)
  | yes
  | no
  | opening
  | closing
  | comma
  | bang
  | both
  | either
  | same
  | differs
  deriving DecidableEq, Repr, Inhabited

namespace Token

def text : Token → String
  | .word name => name
  | .str value => "'" ++ value ++ "'"
  | .yes => "true"
  | .no => "false"
  | .opening => "("
  | .closing => ")"
  | .comma => ","
  | .bang => "!"
  | .both => "&&"
  | .either => "||"
  | .same => "=="
  | .differs => "!="

def textOrEnd : Option Token → String
  | some t => t.text
  | none => "end of input"

end Token

inductive SyntaxError where
  | empty
  /-- A character that only counts when it is doubled. -/
  | single (c : Char) (pos : Nat)
  | unterminated (pos : Nat)
  | badCharacter (c : Char) (pos : Nat)
  | expected (want : Token) (found : Option Token)
  | unexpected (found : Option Token)
  | trailing (found : Token)
  | unknownIdentifier (name : String)
  | unknownFunction (name : String)
  | arity (name : String) (want got : Nat)
  deriving DecidableEq, Repr, Inhabited

def unknownIdentifierText (name : String) : String :=
  "unknown identifier '" ++ name ++ "' (expected event, ref or branch)"

def unknownFunctionText (name : String) : String := "unknown function '" ++ name ++ "'"

def arityText (name : String) (want got : Nat) : String :=
  name ++ "() takes " ++ toString want ++ " argument(s), got " ++ toString got

def SyntaxError.message : SyntaxError → String
  | .empty => "condition is empty"
  | .single c pos =>
    "expected '" ++ String.ofList [c, c] ++ "' at position " ++ toString pos
  | .unterminated pos => "unterminated string starting at position " ++ toString pos
  | .badCharacter c pos =>
    "unexpected character '" ++ String.ofList [c] ++ "' at position " ++ toString pos
  | .expected want found =>
    "expected " ++ want.text ++ " but found " ++ Token.textOrEnd found
  | .unexpected found => "unexpected " ++ Token.textOrEnd found
  | .trailing found => "unexpected " ++ found.text ++ " after end of condition"
  | .unknownIdentifier name => unknownIdentifierText name
  | .unknownFunction name => unknownFunctionText name
  | .arity name want got => arityText name want got

/-! ## Scanning -/

def isWordStart (c : Char) : Bool := c.isAlpha || c = '_'

def isWordPart (c : Char) : Bool := c.isAlphanum || c = '_'

/-- The literals are words with a meaning of their own. -/
def Token.ofWord (name : String) : Token :=
  match name with
  | "true" => .yes
  | "false" => .no
  | _ => .word name

/-- The characters before the first `quote`, and those after it. -/
def readQuoted (quote : Char) : List Char → Option (List Char × List Char)
  | [] => none
  | c :: cs =>
    if c = quote then some ([], cs)
    else
      match readQuoted quote cs with
      | some (value, rest) => some (c :: value, rest)
      | none => none

theorem readQuoted_length {quote : Char} {s value rest : List Char}
    (h : readQuoted quote s = some (value, rest)) : rest.length < s.length := by
  induction s generalizing value with
  | nil => simp [readQuoted] at h
  | cons c cs ih =>
    simp only [readQuoted] at h
    split at h
    · cases h; simp
    · split at h
      · rename_i heq
        cases h
        exact Nat.lt_succ_of_lt (ih heq)
      · cases h

def byteLength (s : List Char) : Nat := s.foldr (fun c n => c.utf8Size + n) 0

/-- The tokens of the characters from byte `pos` on. -/
def Token.scanFrom (pos : Nat) : List Char → Except SyntaxError (List Token)
  | [] => .ok []
  | c :: cs =>
    if isBlank c then scanFrom (pos + c.utf8Size) cs
    else if c = '(' then (scanFrom (pos + 1) cs).map (.opening :: ·)
    else if c = ')' then (scanFrom (pos + 1) cs).map (.closing :: ·)
    else if c = ',' then (scanFrom (pos + 1) cs).map (.comma :: ·)
    else if c = '!' then
      match cs with
      | '=' :: cs => (scanFrom (pos + 2) cs).map (.differs :: ·)
      | cs => (scanFrom (pos + 1) cs).map (.bang :: ·)
    else if c = '=' then
      match cs with
      | '=' :: cs => (scanFrom (pos + 2) cs).map (.same :: ·)
      | _ => .error (.single c pos)
    else if c = '&' then
      match cs with
      | '&' :: cs => (scanFrom (pos + 2) cs).map (.both :: ·)
      | _ => .error (.single c pos)
    else if c = '|' then
      match cs with
      | '|' :: cs => (scanFrom (pos + 2) cs).map (.either :: ·)
      | _ => .error (.single c pos)
    else if c = '\'' ∨ c = '"' then
      match _h : readQuoted c cs with
      | some (value, rest) =>
        (scanFrom (pos + 2 + byteLength value) rest).map (.str (String.ofList value) :: ·)
      | none => .error (.unterminated pos)
    else if isWordStart c then
      let name := c :: cs.takeWhile isWordPart
      (scanFrom (pos + name.length) (cs.dropWhile isWordPart)).map
        (Token.ofWord (String.ofList name) :: ·)
    else .error (.badCharacter c pos)
termination_by s => s.length
decreasing_by
  all_goals simp only [List.length_cons]
  all_goals first
    | omega
    | (have h := readQuoted_length (by assumption); omega)
    | (have h := (List.dropWhile_sublist isWordPart (l := cs)).length_le; omega)

def Token.scan (source : String) : Except SyntaxError (List Token) :=
  scanFrom 0 source.toList

end Condition
end Conveyor
