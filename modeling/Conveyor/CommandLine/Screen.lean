import Conveyor.Console
import Conveyor.Error
import Conveyor.Workspace

/-!
# Conveyor.CommandLine.Screen

What an action shows, and how it can fail.

* `Failure` — an error of the library, or a message of the action itself.
* `Screen`  — what was printed so far, and the workspace.
* `Action`  — a computation on a screen. A failure keeps what was printed before it.
-/

namespace Conveyor
namespace CommandLine

inductive Failure where
  | error (e : Error)
  | message (text : String) (help : Option String)
  deriving DecidableEq, Repr

namespace Failure

/-- A failure ends the process with this code. -/
def exitCode : Nat := 2

def text : Failure → String
  | .error e => e.message
  | .message text _ => text

def code : Failure → Option String
  | .error e => some e.code
  | .message _ _ => none

def help : Failure → Option String
  | .error e => e.help
  | .message _ help => help

end Failure

structure Screen where
  stdout : String := ""
  stderr : String := ""
  workspace : Workspace
  folder : Path
  colored : Bool
  deriving Repr, Inhabited

abbrev Action := ExceptT Failure (StateM Screen)

namespace Screen

/-- A line on the standard output. -/
def say (line : String) : Action Unit :=
  modify fun s => { s with stdout := s.stdout ++ line ++ "\n" }

/-- A line on the error output. -/
def complain (line : String) : Action Unit :=
  modify fun s => { s with stderr := s.stderr ++ line ++ "\n" }

/-- A text in a style, if colours are wanted. -/
def paint (style : Style) (text : String) : Action String := do
  return Console.paint (← get).colored style text

def header (title : String) : Action Unit := do
  say (← paint .bold title)
  say (String.ofList (List.replicate (max title.length 40) '═'))

def chapter (title : String) : Action Unit := do
  say ""
  say ((← paint .bold title) ++ ":")

def marked (style : Style) (sign text : String) : Action String := do
  return "  " ++ (← paint style sign) ++ " " ++ text

def success (text : String) : Action Unit := do say (← marked .green "✓" text)

def info (text : String) : Action Unit := do say (← marked .blue "→" text)

def error (text : String) : Action Unit := do complain (← marked .red "✗" text)

def warning (text : String) : Action Unit := do complain (← marked .yellow "⚠" text)

end Screen
end CommandLine
end Conveyor
