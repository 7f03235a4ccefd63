/-!
# Conveyor.Text.Blank

White space in the sense of the Unicode property `White_Space`, and trimming by it.

* `isBlank`   — the property as a table of code points.
* `Text.trim` — a text without the blanks at its two ends.
-/

namespace Conveyor

/-- The Unicode property `White_Space`: the ASCII blanks, NEL, NBSP, and the spaces and
separators of the general punctuation and CJK blocks. Zero-width characters are outside. -/
def isBlank (c : Char) : Bool :=
  let n := c.toNat
  (9 ≤ n && n ≤ 13) || n == 0x20 || n == 0x85 || n == 0xA0 || n == 0x1680
    || (0x2000 ≤ n && n ≤ 0x200A) || n == 0x2028 || n == 0x2029 || n == 0x202F
    || n == 0x205F || n == 0x3000

namespace Text

def trimLeft (s : List Char) : List Char := s.dropWhile isBlank

def trimRight (s : List Char) : List Char := (s.reverse.dropWhile isBlank).reverse

def trim (s : String) : String := String.ofList (trimRight (trimLeft s.toList))

end Text
end Conveyor
