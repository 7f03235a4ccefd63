import Conveyor.Text.Lines

/-!
# Conveyor.Text.Bytes

Texts as the bytes of their UTF-8 form.

* `Bytes`           — a sequence of bytes, each held as the character of its number.
* `Bytes.ofString`  — the bytes of a text; `Bytes.toString?` is the text of some bytes.
* `Bytes.collect`   — what a reader of lines gets from a stream of bytes.
-/

namespace Conveyor

/-- A sequence of bytes, each held as the character of its number. -/
abbrev Bytes := List Char

namespace Bytes

def ofString (s : String) : Bytes := s.toUTF8.toList.map fun b => Char.ofNat b.toNat

/-- The text of some bytes, unless they are not UTF-8. -/
def toString? (b : Bytes) : Option String :=
  String.fromUTF8? (ByteArray.mk (b.map fun c => UInt8.ofNat c.toNat).toArray)

/-- The text of some bytes; bytes that are not UTF-8 read as characters of their number. -/
def toText (b : Bytes) : String := b.toString?.getD (String.ofList b)

/-- Joins lines by line feeds, as long as they are UTF-8. Nothing separates a line from an empty
text. -/
def joinLines (acc : String) : List Bytes → String
  | [] => acc
  | line :: rest =>
    match toString? line with
    | none => acc
    | some s => joinLines (if acc.isEmpty then s else acc ++ "\n" ++ s) rest

/-- What a reader of lines gets from a stream. -/
def collect (b : Bytes) : String := joinLines "" (Text.linesFrom [] b)

end Bytes
end Conveyor
