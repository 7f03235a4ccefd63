import Conveyor.Text.Bytes

/-!
# Conveyor.Shell.Pattern

The patterns of a shell, for file names, choices and the ends of values.

* `Pattern.parse`   — a star, a question mark and brackets are signs where they are not quoted.
* `Pattern.covers` — a pattern matches the whole of a text.
* `Pattern.dropStart`, `Pattern.dropEnd` — a text without a part that a pattern matches.
-/

namespace Conveyor
namespace Shell

abbrev Glyph := Char × Bool

inductive Sign where
  | anything
  | oneOf (negated : Bool) (ranges : List (Char × Char))
  | one (c : Char)
  | single
  deriving DecidableEq, Repr

abbrev Pattern := List Sign

namespace Pattern

def isActive (g : Glyph) : Bool := !g.2 && "*?[".toList.contains g.1

def ranges : List Glyph → List (Char × Char)
  | a :: ('-', false) :: b :: rest => (a.1, b.1) :: ranges rest
  | a :: rest => (a.1, a.1) :: ranges rest
  | [] => []

/-- The text up to the bracket that closes it, and what follows. A bracket at the start does not
close. -/
def bracketed : List Glyph → Option (List Glyph × List Glyph)
  | [] => none
  | g :: rest =>
    match rest.span fun g => g ≠ (']', false) with
    | (_, []) => none
    | (inner, _ :: after) => some (g :: inner, after)

def parseFrom : Nat → List Glyph → Pattern
  | 0, _ => []
  | _, [] => []
  | fuel + 1, ('*', false) :: rest => .anything :: parseFrom fuel rest
  | fuel + 1, ('?', false) :: rest => .single :: parseFrom fuel rest
  | fuel + 1, ('[', false) :: rest =>
    let negated := rest.head?.any fun g => g = ('!', false) || g = ('^', false)
    match bracketed (if negated then rest.drop 1 else rest) with
    | some (inner, after) => .oneOf negated (ranges inner) :: parseFrom fuel after
    | none => .one '[' :: parseFrom fuel rest
  | fuel + 1, g :: rest => .one g.1 :: parseFrom fuel rest

def parse (word : List Glyph) : Pattern := parseFrom word.length word

/-- A text and what is left of it when characters are taken from its start. -/
def suffixes : Bytes → List Bytes
  | [] => [[]]
  | c :: cs => (c :: cs) :: suffixes cs

def covers : Pattern → Bytes → Bool
  | [], s => s.isEmpty
  | .anything :: p, s => (suffixes s).any fun t => covers p t
  | .single :: p, s =>
    match s with
    | [] => false
    | _ :: cs => covers p cs
  | .one d :: p, s =>
    match s with
    | [] => false
    | c :: cs => c = d && covers p cs
  | .oneOf negated ranges :: p, s =>
    match s with
    | [] => false
    | c :: cs => ranges.any (fun r => r.1 ≤ c && c ≤ r.2) != negated && covers p cs

/-- The text without the longest or the shortest part at its start that a pattern matches. -/
def dropStart (p : Pattern) (longest : Bool) (s : Bytes) : Bytes :=
  let sizes := List.range (s.length + 1)
  let sizes := if longest then sizes.reverse else sizes
  match sizes.find? fun n => covers p (s.take n) with
  | some n => s.drop n
  | none => s

/-- The text without the longest or the shortest part at its end that a pattern matches. -/
def dropEnd (p : Pattern) (longest : Bool) (s : Bytes) : Bytes :=
  let sizes := List.range (s.length + 1)
  let sizes := if longest then sizes else sizes.reverse
  match sizes.find? fun n => covers p (s.drop n) with
  | some n => s.take n
  | none => s

end Pattern
end Shell
end Conveyor
