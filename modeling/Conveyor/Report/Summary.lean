import Conveyor.Console
import Conveyor.Decimal
import Conveyor.Report.Basic

/-!
# Conveyor.Report.Summary

The report as text for a terminal: a title, a line for each stage, the headline, and, if asked
for, the identity of the run.

Names of stages are filled up to the length in bytes of the longest one.
-/

namespace Conveyor

namespace StageSummary

def symbol (colored : Bool) (s : StageSummary) : String :=
  match s.status with
  | .succeeded => Console.paint colored .green "✓"
  | .failed => Console.paint colored (if s.optional then .yellow else .red) "✗"
  | .skipped => Console.paint colored .dimmed "○"
  | .queued => Console.paint colored .blue "→"
  | .pending | .running => Console.paint colored .dimmed "?"

def detail (colored dryRun : Bool) (s : StageSummary) : String :=
  match s.status with
  | .succeeded => Decimal.seconds s.durationMillis ++ "s"
  | .failed =>
    Console.paint colored .red
      (s.error.getD "failed" ++ (if s.optional then " (allowed to fail)" else ""))
  | .skipped =>
    match s.skipReason with
    | some reason => Console.paint colored .dimmed ("skipped: " ++ reason.text)
    | none => Console.paint colored .dimmed "skipped"
  | .queued => if dryRun then "would run" else s.status.name
  | .pending | .running => s.status.name

end StageSummary

namespace Report

def title (r : Report) : String :=
  (if r.dryRun then "Plan for '" else "Run '") ++ r.pipeline ++ "' (" ++ r.trigger.text ++ ")"

def nameWidth (r : Report) : Nat := (r.stages.map fun s => s.name.utf8ByteSize).foldl max 0

def stageLine (r : Report) (colored : Bool) (s : StageSummary) : String :=
  "  " ++ s.symbol colored ++ " " ++ Console.padRight r.nameWidth s.name ++ "  " ++
    s.detail colored r.dryRun ++ "\n"

def headlineStyle (r : Report) : Style :=
  match r.status with
  | .succeeded => .boldGreen
  | .partialSuccess => .boldYellow
  | .failed | .cancelled => .boldRed

/-- The characters that fill exactly so many bytes; none, if a character crosses the limit. -/
def takeBytes? : Nat → List Char → Option (List Char)
  | _, [] => some []
  | 0, _ => some []
  | limit, c :: cs =>
    if limit < c.utf8Size then none else (takeBytes? (limit - c.utf8Size) cs).map (c :: ·)

/-- The first twelve bytes of the fingerprint, if they are whole characters. -/
def shortFingerprint? (r : Report) : Option String :=
  (takeBytes? 12 r.fingerprint.toList).map String.ofList

/-- The text without the identity of the run. -/
def body (r : Report) (colored : Bool) : String :=
  Console.paint colored .bold r.title ++ "\n" ++
    String.join (r.stages.map (r.stageLine colored)) ++ "\n" ++
    Console.paint colored r.headlineStyle r.headline ++ " in " ++
    Decimal.seconds r.durationMillis ++ "s\n"

def footer (r : Report) (short : String) : String :=
  "run " ++ r.runId.text ++ " · fingerprint " ++ short

/-- The whole text. There is none when the identity is asked for and the fingerprint cannot be
cut. -/
def render? (r : Report) (colored verbose : Bool) : Option String :=
  if verbose then
    r.shortFingerprint?.map fun short =>
      r.body colored ++ Console.paint colored .dimmed (r.footer short) ++ "\n"
  else some (r.body colored)

end Report
end Conveyor
