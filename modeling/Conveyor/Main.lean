import Conveyor.CommandLine.Action
import Conveyor.CommandLine.Reader

/-!
# Conveyor.Main

The program. It reads the files of the current folder into a workspace, performs the invocation
on the command line, prints what that shows, and writes the files that have changed.
-/

namespace Conveyor
namespace Main

def pathOf (written : String) : Path := Workspace.resolve [] written

def bytesOf (content : ByteArray) : Bytes := content.toList.map fun b => Char.ofNat b.toNat

def arrayOf (content : Bytes) : ByteArray :=
  ⟨(content.map fun c => UInt8.ofNat c.toNat).toArray⟩

def load : Nat → Workspace → String → IO Workspace
  | 0, w, _ => return w
  | depth + 1, w, place => do
    let real ← IO.FS.realPath place
    let p := pathOf real.toString
    let w := w.makeParents p
    if ← real.isDir then
      let w := if p = [] then w else w.put p .folder
      (← real.readDir).foldlM (fun w entry => load depth w entry.path.toString) w
    else
      try return w.put p (.file (bytesOf (← IO.FS.readBinFile real)))
      catch _ => return w

def loadIfThere (w : Workspace) (place : String) : IO Workspace := do
  try load 12 w place catch _ => return w

def placesOf (i : CommandLine.Invocation) : List String :=
  i.directory.toList ++
    match i.request with
    | .init _ _ _ => []
    | .run a => [a.pipeline]
    | .validate path | .graph path _ => [path]

/-- The secrets that the pipeline of an invocation names, as far as the environment has them. -/
def secretsFor (i : CommandLine.Invocation) (w : Workspace) (folder : Path) :
    IO (Dict String) := do
  let folder := (i.directory.bind fun d => (w.walk folder d).toOption).getD folder
  match i.request with
  | .run a =>
    match Pipeline.load w folder a.pipeline with
    | .ok p =>
      let names := p.stages.flatMap (·.secrets)
      let found ← names.filterMapM fun n => do return (← IO.getEnv n).map (n, ·)
      return Dict.ofList found
    | .error _ => return ∅
  | _ => return ∅

/-- The instant at which a file is made now. -/
def now : IO Timestamp := do
  let (_, place) ← IO.FS.createTempFile
  let time := (← place.metadata).modified
  IO.FS.removeFile place
  return Timestamp.ofSeconds time.sec time.nsec.toNat

def newRunId : IO RunId := do
  let digits ← (List.replicate 32 16).mapM fun n => IO.rand 0 (n - 1)
  return RunId.ofRandom digits

def store (w before : Workspace) : IO Unit := do
  (w.changedSince before []).forM fun (p, content) => do
    IO.FS.createDirAll (Workspace.pathText p.dropLast)
    IO.FS.writeBinFile (Workspace.pathText p) (arrayOf content)
  (w.removedSince before).forM fun p => IO.FS.removeFile (Workspace.pathText p)

def perform (i : CommandLine.Invocation) : IO UInt32 := do
  let here := (← IO.FS.realPath ".").toString
  let before ← (here :: placesOf i).foldlM loadIfThere Workspace.standard
  let folder := pathOf here
  let secrets ← secretsFor i before folder
  let colored := (← IO.getEnv "NO_COLOR").isNone && (← (← IO.getStdout).isTty)
  let host : CommandLine.Host :=
    { environment := secrets.get?, runId := ← newRunId, now := ← now }
  let (result, screen) := (i.perform host).run.run { workspace := before, folder, colored }
  IO.print screen.stdout
  IO.eprint screen.stderr
  store screen.workspace before
  match result with
  | .ok code => return UInt32.ofNat code
  | .error f =>
    IO.eprintln ("Error: " ++ f.text)
    match f.help with
    | some help => IO.eprintln ("help: " ++ help)
    | none => pure ()
    return UInt32.ofNat CommandLine.Failure.exitCode

end Main
end Conveyor

def main (words : List String) : IO UInt32 := do
  match Conveyor.CommandLine.parse words with
  | .ok i => Conveyor.Main.perform i
  | .error r =>
    if r.exitCode = 0 then IO.println r.message else IO.eprintln ("error: " ++ r.message)
    return UInt32.ofNat r.exitCode
