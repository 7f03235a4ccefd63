import Conveyor.Shell.Machine
import Conveyor.Shell.Pattern

/-!
# Conveyor.Shell.Field

What becomes of a word when it is expanded: none, one or several fields.

* `Atom`       — a part of an expanded word.
* `fieldsOf`   — splits expanded words at blanks that were not quoted.
* `pathsOf`    — a field with signs of patterns becomes the paths that it matches.
-/

namespace Conveyor
namespace Shell

/-- A part of an expanded word. -/
inductive Atom where
  /-- A character. The word may be split at it if it comes out of an expansion. -/
  | char (g : Glyph) (splits : Bool)
  /-- Something quoted stands here, perhaps empty: there is a field. -/
  | quote
  /-- One field ends here and another one begins. -/
  | cut
  deriving DecidableEq, Repr

namespace Atom

def written (s : Bytes) (quoted : Bool) : List Atom :=
  (if quoted then [.quote] else []) ++ s.map fun c => .char (c, quoted) false

def expanded (s : Bytes) (quoted : Bool) : List Atom :=
  (if quoted then [.quote] else []) ++ s.map fun c => .char (c, quoted) !quoted

def glyph? : Atom → Option Glyph
  | .char g _ => some g
  | .quote => none
  | .cut => some (' ', true)

def glyphs (atoms : List Atom) : List Glyph := atoms.filterMap glyph?

def text (atoms : List Atom) : Bytes := (glyphs atoms).map (·.1)

end Atom

/-- Fields while a word is split; the field at hand is in reverse. -/
structure Splitting where
  fields : List (List Glyph) := []
  current : List Glyph := []
  begun : Bool := false
  /-- A blank ended the last field, so that a separator after it ends nothing. -/
  afterBlank : Bool := false

namespace Splitting

def close (s : Splitting) : Splitting :=
  { s with fields := s.fields ++ [s.current.reverse], current := [], begun := false }

def closeBegun (s : Splitting) : Splitting := if s.begun then s.close else s

def isBlank (c : Char) : Bool := c = ' ' || c = '\t' || c = '\n'

def step (separators : Bytes) (s : Splitting) : Atom → Splitting
  | .quote => { s with begun := true, afterBlank := false }
  | .cut => s.closeBegun
  | .char g splits =>
    if splits && separators.contains g.1 then
      if isBlank g.1 then
        if s.begun then { s.close with afterBlank := true } else s
      else if s.begun then s.close
      else if s.afterBlank then { s with afterBlank := false }
      else s.close
    else { s with current := g :: s.current, begun := true, afterBlank := false }

end Splitting

def fieldsOf (separators : Bytes) (atoms : List Atom) : List (List Glyph) :=
  (atoms.foldl (Splitting.step separators) {}).closeBegun.fields

/-! ## Paths -/

def partsOf : List Glyph → List (List Glyph)
  | [] => [[]]
  | g :: rest =>
    if g.1 = '/' then [] :: partsOf rest
    else
      match partsOf rest with
      | [] => [[g]]
      | part :: parts => (g :: part) :: parts

/-- The names in a folder that match a pattern. A point at the start is matched by a point
alone. -/
def namesMatching (w : Workspace) (folder : Path) (part : List Glyph) : List String :=
  let names := w.entries.filterMap fun (p, _) =>
    if p.length = folder.length + 1 ∧ p.take folder.length = folder then p.getLast? else none
  let pattern := Pattern.parse part
  let hidden := part.head?.any fun g => g.1 = '.'
  let fits := fun n : String =>
    (hidden || n.toList.head? ≠ some '.') && pattern.covers (Bytes.ofString n)
  (names.filter fits).mergeSort fun a b => decide (a ≤ b)

/-- The paths that match parts, from a folder on; `before` is their beginning as it is written. -/
def matching (w : Workspace) (folder : Path) (before : String) : List (List Glyph) → List String
  | [] => [before]
  | [part] =>
    if part.any Pattern.isActive then
      match w.walk folder (if before.isEmpty then "." else before) with
      | .ok p => (namesMatching w p part).map (before ++ ·)
      | .error _ => []
    else
      let path := before ++ Bytes.toText (part.map (·.1))
      if (w.entryAt? folder path).isSome then [path] else []
  | part :: parts =>
    if part.any Pattern.isActive then
      match w.walk folder (if before.isEmpty then "." else before) with
      | .ok p => (namesMatching w p part).flatMap fun n =>
          matching w folder (before ++ n ++ "/") parts
      | .error _ => []
    else matching w folder (before ++ Bytes.toText (part.map (·.1)) ++ "/") parts

/-- A field with signs of patterns becomes the paths that it matches, if there are any. -/
def pathsOf (w : Workspace) (folder : Path) (field : List Glyph) : List Bytes :=
  let plain := field.map (·.1)
  if field.any Pattern.isActive then
    match matching w folder "" (partsOf field) with
    | [] => [plain]
    | paths => paths.map Bytes.ofString
  else [plain]

end Shell
end Conveyor
