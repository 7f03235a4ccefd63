import Conveyor.Error
import Conveyor.Text.Search

/-!
# Conveyor.Glob

Globs over names that are divided by `/`.

* `Glob.compile` — reads a glob: `?`, `*` and classes stay inside one segment, and `**`, a
                   segment of its own, spans any number of them.
* `Glob.accepts` — whether a glob matches a whole name.

Matching tells apart two ways to fail: the name differs here, so that a longer stretch for an
earlier wildcard may still help, and the name has run out, so that nothing can help.
-/

namespace Conveyor

inductive CharSet where
  | single (c : Char)
  | range (first last : Char)
  deriving DecidableEq, Repr

def CharSet.mem (c : Char) : CharSet → Bool
  | .single d => c = d
  | .range first last => first ≤ c && c ≤ last

namespace Glob

inductive Token where
  | literal (c : Char)
  | anyChar
  | segment
  /-- Any number of whole segments. -/
  | tree
  | within (set : List CharSet)
  | outside (set : List CharSet)
  deriving DecidableEq, Repr

/-- What is wrong with the text of a glob. -/
inductive Flaw where
  | wildcards
  | component
  | range
  deriving DecidableEq, Repr

def Flaw.message : Flaw → String
  | .wildcards => "wildcards are either regular `*` or recursive `**`"
  | .component => "recursive wildcards must form a single path component"
  | .range => "invalid range pattern"

def Flaw.toError (pattern : String) (flaw : Flaw) : Error := .branchPattern pattern flaw.message

/-- The members of a class from the characters between its brackets. -/
def charSets : List Char → List CharSet
  | a :: '-' :: b :: rest => .range a b :: charSets rest
  | a :: rest => .single a :: charSets rest
  | [] => []

/-- A class after its opening bracket, with the characters after the closing one. The first
member may be a bracket itself. -/
def readClass : List Char → Option (Token × List Char)
  | '!' :: first :: rest =>
    (Text.splitOnce ']' rest).map fun (members, after) =>
      (.outside (charSets (first :: members)), after)
  | '!' :: [] => none
  | first :: rest =>
    (Text.splitOnce ']' rest).map fun (members, after) =>
      (.within (charSets (first :: members)), after)
  | [] => none

theorem splitOnce_length {sep : Char} {s a b : List Char}
    (h : Text.splitOnce sep s = some (a, b)) : b.length < s.length := by
  obtain ⟨rfl, _⟩ := Text.splitOnce_eq_some_iff.1 h
  rw [List.length_append, List.length_cons]
  omega

theorem readClass_length {s rest : List Char} {t : Token} (h : readClass s = some (t, rest)) :
    rest.length < s.length := by
  unfold readClass at h
  split at h
  · obtain ⟨⟨x, y⟩, hxy, heq⟩ := Option.map_eq_some_iff.1 h
    cases heq
    exact Nat.lt_succ_of_lt (Nat.lt_succ_of_lt (splitOnce_length hxy))
  · cases h
  · obtain ⟨⟨x, y⟩, hxy, heq⟩ := Option.map_eq_some_iff.1 h
    cases heq
    exact Nat.lt_succ_of_lt (splitOnce_length hxy)
  · cases h

/-- `**` after the tokens so far, in reverse. A run of them is one, except at the very start. -/
def pushTree (acc : List Token) : List Token :=
  match acc with
  | .tree :: _ :: _ => acc
  | _ => .tree :: acc

/-- Reads the rest of a glob. `prev` is the character before it and `acc` holds the tokens so
far in reverse. -/
def readFrom (prev : Option Char) (acc : List Token) : List Char → Except Flaw (List Token)
  | [] => .ok acc.reverse
  | '?' :: rest => readFrom (some '?') (.anyChar :: acc) rest
  | '*' :: '*' :: '*' :: _ => .error .wildcards
  | '*' :: '*' :: rest =>
    if prev = none ∨ prev = some '/' then
      match rest with
      | [] => .ok (pushTree acc).reverse
      | '/' :: rest => readFrom (some '/') (pushTree acc) rest
      | _ => .error .component
    else .error .component
  | '*' :: rest => readFrom (some '*') (.segment :: acc) rest
  | '[' :: rest =>
    match _h : readClass rest with
    | some (token, after) => readFrom (some ']') (token :: acc) after
    | none => .error .range
  | c :: rest => readFrom (some c) (.literal c :: acc) rest
termination_by s => s.length
decreasing_by
  all_goals first
    | (have h := readClass_length (by assumption); simp only [List.length_cons]; omega)
    | (simp only [List.length_cons]; omega)

end Glob

/-- A glob with the text it was read from. -/
structure Glob where
  source : String
  tokens : List Glob.Token
  deriving DecidableEq, Repr

namespace Glob

def compile (source : String) : Except Flaw Glob :=
  match readFrom none [] source.toList with
  | .ok tokens => .ok ⟨source, tokens⟩
  | .error flaw => .error flaw

/-! ## Matching -/

inductive Verdict where
  | matched
  | differs
  /-- The text ran out while a character was wanted. -/
  | exhausted
  deriving DecidableEq, Repr

/-- Tries the rest of a glob after every stretch inside the segment, the shortest first. -/
def spanSegment (k : List Char → Verdict) : List Char → Verdict
  | [] => k []
  | c :: cs =>
    match k (c :: cs) with
    | .differs => if c = '/' then .differs else spanSegment k cs
    | v => v

/-- Tries the rest of a glob after each later separator, and at the very end. -/
def spanLater (k : List Char → Verdict) : List Char → Verdict
  | [] => k []
  | c :: cs =>
    if c = '/' then
      match k cs with
      | .differs => spanLater k cs
      | v => v
    else spanLater k cs

/-- Tries the rest of a glob here, then as `spanLater`. -/
def spanTree (k : List Char → Verdict) (cs : List Char) : Verdict :=
  match k cs with
  | .differs => spanLater k cs
  | v => v

def Token.accepts (c : Char) : Token → Bool
  | .literal d => c = d
  | .anyChar => c ≠ '/'
  | .within set => c ≠ '/' && set.any (·.mem c)
  | .outside set => c ≠ '/' && !set.any (·.mem c)
  | .segment | .tree => false

/-- Matches one character and goes on. -/
def one (t : Token) (k : List Char → Verdict) : List Char → Verdict
  | [] => .exhausted
  | c :: cs => if t.accepts c then k cs else .differs

def run : List Token → List Char → Verdict
  | [] => fun cs => if cs.isEmpty then .matched else .differs
  | .segment :: ts => spanSegment (run ts)
  | .tree :: ts => spanTree (run ts)
  | t :: ts => one t (run ts)

def accepts (g : Glob) (name : String) : Bool := run g.tokens name.toList = .matched

end Glob
end Conveyor
