/-!
# Conveyor.Text.Lines

Texts as sequences of lines. A line ends at `\n` or `\r\n`; a last line without an end counts
when it is not empty.

* `Text.lines`   — the lines of a text, without their ends.
* `Text.unlines` — lines joined by `\n`.
* `Text.tail`    — the last lines of a text.
-/

namespace Conveyor
namespace Text

/-- One carriage return at the end belongs to the line end. -/
def chompReturn (line : List Char) : List Char :=
  match line.reverse with
  | '\r' :: rest => rest.reverse
  | _ => line

/-- Splits at every `\n`; `cur` is the current line in reverse. -/
def linesFrom (cur : List Char) : List Char → List (List Char)
  | [] => if cur.isEmpty then [] else [cur.reverse]
  | '\n' :: cs => chompReturn cur.reverse :: linesFrom [] cs
  | c :: cs => linesFrom (c :: cur) cs

/-- The lines of a text. The line end is `\n` or `\r\n`; a carriage return at the end of an
unterminated last line is part of that line. -/
def lines (s : String) : List String := (linesFrom [] s.toList).map String.ofList

def unlines (ls : List String) : String := "\n".intercalate ls

/-- The last `n` lines of a text, joined by `\n`. -/
def tail (n : Nat) (s : String) : String :=
  let ls := lines s
  unlines (ls.drop (ls.length - n))

def dropReturns (s : String) : String :=
  String.ofList (s.toList.reverse.dropWhile (· = '\r')).reverse

end Text
end Conveyor
