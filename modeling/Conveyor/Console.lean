import Conveyor.Text.Search

/-!
# Conveyor.Console

Text for a terminal.

* `Style`  — the attributes of a painted text.
* `paint`  — a text between the codes that switch its style on and off; where styles are not
             wanted, the text alone.

A text that switches styles off inside itself gets its own style back after that.
-/

namespace Conveyor

inductive Style where
  | bold
  | dimmed
  | red
  | green
  | yellow
  | blue
  | cyan
  | boldRed
  | boldGreen
  | boldYellow
  deriving DecidableEq, Repr

namespace Style

def codes : Style → String
  | .bold => "1"
  | .dimmed => "2"
  | .red => "31"
  | .green => "32"
  | .yellow => "33"
  | .blue => "34"
  | .cyan => "36"
  | .boldRed => "1;31"
  | .boldGreen => "1;32"
  | .boldYellow => "1;33"

end Style

namespace Console

def switch (codes : String) : String := "\x1b[" ++ codes ++ "m"

def reset : String := switch "0"

def paint (colored : Bool) (style : Style) (text : String) : String :=
  if colored then
    let on := switch style.codes
    let inner := Text.replaceAll reset.toList (reset ++ on).toList text.toList
    on ++ String.ofList inner ++ reset
  else text

def padRight (width : Nat) (text : String) : String :=
  text ++ String.ofList (List.replicate (width - text.length) ' ')

end Console
end Conveyor
