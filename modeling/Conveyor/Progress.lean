import Conveyor.Console
import Conveyor.Decimal
import Conveyor.Scheduler

/-!
# Conveyor.Progress

The display that follows a run: a bar over its stages with a message beside it, and a line printed
above it for every stage that starts or ends.

* `Progress.hear`   — what one notice changes.
* `Progress.follow` — the display after some notices.
-/

namespace Conveyor

structure Progress where
  /-- The stages of the run. -/
  length : Nat := 0
  /-- The stages that have ended. -/
  position : Nat := 0
  message : String := ""
  lines : List String := []
  deriving DecidableEq, Repr

namespace Progress

/-- Milliseconds as seconds with two places. The part below a second is made a binary number by
itself and then added, which decides some halves in another way than `Decimal.seconds`. -/
def seconds (millis : Nat) : String :=
  let (a, b) := (Decimal.Binary.nearest (millis % 1000) 1000).fraction
  let (c, d) := (Decimal.Binary.nearest (millis / 1000 * b + a) b).fraction
  Decimal.hundredths (Decimal.roundDiv (100 * c) d)

def startLine (colored : Bool) (name : String) : String :=
  "  " ++ Console.paint colored .blue "→" ++ " " ++ name

def finishLine (colored : Bool) (o : Outcome) : String :=
  match o.status with
  | .succeeded =>
    "  " ++ Console.paint colored .green "✓" ++ " " ++ Console.paint colored .bold o.name ++
      " (" ++ seconds o.duration ++ "s)"
  | .failed =>
    "  " ++ Console.paint colored .red "✗" ++ " " ++ Console.paint colored .bold o.name ++ " failed"
  | .pending | .queued | .running | .skipped =>
    "  " ++ Console.paint colored .dimmed "○" ++ " " ++ Console.paint colored .dimmed o.name ++
      " (skipped)"

def hear (colored : Bool) (p : Progress) : Scheduler.Notice → Progress
  | .runStarted total => { p with length := total }
  | .stageStarted _ request =>
    { p with lines := p.lines ++ [startLine colored request.stage], message := request.stage }
  | .stageFinished _ o =>
    { p with lines := p.lines ++ [finishLine colored o], position := p.position + 1 }

def follow (colored : Bool) (notices : List Scheduler.Notice) : Progress :=
  notices.foldl (hear colored) {}

end Progress
end Conveyor
