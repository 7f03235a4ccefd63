import Conveyor.Text.Bytes
import Conveyor.Text.Search

/-!
# Conveyor.Workspace

A tree of folders and files.

* `Workspace`        — what stands at each path.
* `Workspace.walk`   — follows a written path.
* `Workspace.read`, `write`, `makeFolder`, `remove` — the operations on it.
* `Fault`            — why an operation is not possible.
-/

namespace Conveyor

/-- The names on the way from the root. -/
abbrev Path := List String

inductive Entry where
  | folder
  | file (content : Bytes)
  /-- Takes everything and holds nothing. -/
  | nothing
  deriving DecidableEq, Repr, Inhabited

inductive Fault where
  | notFound
  | notFolder
  | isFolder
  | exists
  | notText
  | denied
  deriving DecidableEq, Repr, Inhabited

namespace Fault

def reason : Fault → String
  | .notFound => "No such file or directory"
  | .notFolder => "Not a directory"
  | .isFolder => "Is a directory"
  | .exists => "File exists"
  | .notText => "stream did not contain valid UTF-8"
  | .denied => "Permission denied"

def message (f : Fault) : String :=
  match f with
  | .notFound => f.reason ++ " (os error 2)"
  | .notFolder => f.reason ++ " (os error 20)"
  | .isFolder => f.reason ++ " (os error 21)"
  | .exists => f.reason ++ " (os error 17)"
  | .denied => f.reason ++ " (os error 13)"
  | .notText => f.reason

end Fault

structure Workspace where
  entries : List (Path × Entry) := []
  deriving DecidableEq, Repr, Inhabited

namespace Workspace

def find? (w : Workspace) (p : Path) : Option Entry :=
  if p = [] then some .folder else w.entries.lookup p

def put (w : Workspace) (p : Path) (e : Entry) : Workspace :=
  ⟨(p, e) :: w.entries.filter fun (q, _) => q ≠ p⟩

/-- The folders that every system has, and the file that takes everything. -/
def standard : Workspace :=
  ⟨(["dev", "null"], .nothing) ::
    ([["bin"], ["dev"], ["etc"], ["home"], ["root"], ["tmp"], ["usr"], ["usr", "bin"], ["var"]].map
      fun p => (p, Entry.folder))⟩

/-- Puts folders on the way to a path where there is nothing. -/
def makeParents (w : Workspace) (p : Path) : Workspace :=
  (List.range p.length).foldl (fun w n =>
    if n = 0 ∨ (w.find? (p.take n)).isSome then w else w.put (p.take n) .folder) w

/-! ## Paths -/

/-- Follows names from a path. All but the last must be folders; the last may be missing. -/
def walkFrom (w : Workspace) : Path → List String → Except Fault Path
  | p, [] => .ok p
  | p, name :: rest =>
    match w.find? p with
    | none => .error .notFound
    | some (.file _) | some .nothing => .error .notFolder
    | some .folder =>
      if name.isEmpty ∨ name = "." then walkFrom w p rest
      else if name = ".." then walkFrom w p.dropLast rest
      else walkFrom w (p ++ [name]) rest

def walk (w : Workspace) (folder : Path) (written : String) : Except Fault Path :=
  if written.isEmpty then .error .notFound
  else
    let start := if written.toList.head? = some '/' then [] else folder
    walkFrom w start ((Text.splitOn '/' written.toList).map String.ofList)

def resolve (folder : Path) (written : String) : Path :=
  let start := if written.toList.head? = some '/' then [] else folder
  ((Text.splitOn '/' written.toList).map String.ofList).foldl (fun p name =>
    if name.isEmpty ∨ name = "." then p
    else if name = ".." then p.dropLast
    else p ++ [name]) start

def pathText (p : Path) : String := if p = [] then "/" else String.join (p.map ("/" ++ ·))

/-! ## Operations -/

def entryAt? (w : Workspace) (folder : Path) (written : String) : Option Entry :=
  match w.walk folder written with
  | .ok p => w.find? p
  | .error _ => none

def read (w : Workspace) (p : Path) : Except Fault Bytes :=
  match w.find? p with
  | some (.file content) => .ok content
  | some .nothing => .ok []
  | some .folder => .error .isFolder
  | none => .error .notFound

def readText (w : Workspace) (folder : Path) (written : String) : Except Fault String :=
  match w.walk folder written with
  | .error f => .error f
  | .ok p =>
    match w.read p with
    | .error f => .error f
    | .ok content =>
      match content.toString? with
      | some s => .ok s
      | none => .error .notText

def write (w : Workspace) (p : Path) (content : Bytes) : Except Fault Workspace :=
  match w.find? p with
  | some .folder => .error .isFolder
  | some .nothing => .ok w
  | some (.file _) => .ok (w.put p (.file content))
  | none =>
    match w.find? p.dropLast with
    | some .folder => .ok (w.put p (.file content))
    | some _ => .error .notFolder
    | none => .error .notFound

def writeText (w : Workspace) (folder : Path) (written content : String) :
    Except Fault Workspace :=
  match w.walk folder written with
  | .error f => .error f
  | .ok p => w.write p (Bytes.ofString content)

def makeFolder (w : Workspace) (p : Path) : Except Fault Workspace :=
  match w.find? p with
  | some _ => .error .exists
  | none =>
    match w.find? p.dropLast with
    | some .folder => .ok (w.put p .folder)
    | some _ => .error .notFolder
    | none => .error .notFound

def remove (w : Workspace) (p : Path) : Workspace :=
  ⟨w.entries.filter fun (q, _) => q.take p.length ≠ p⟩

/-- A state with the changes made to it that lead from one state to another: what differs in the
second is put, and what it lacks is removed. -/
def applyChanges (w before after : Workspace) : Workspace :=
  let removed := before.entries.filter fun (p, _) => (after.find? p).isNone
  let put := after.entries.filter fun (p, e) => before.find? p ≠ some e
  put.foldl (fun w (p, e) => w.put p e) (removed.foldl (fun w (p, _) => w.remove p) w)

/-- The files that a state lacks and an earlier one has. -/
def removedSince (w earlier : Workspace) : List Path :=
  earlier.entries.filterMap fun (p, e) =>
    match e with
    | .file _ => if (w.find? p).isNone then some p else none
    | _ => none

def filesUnder (w : Workspace) (folder : Path) : List (Path × Bytes) :=
  w.entries.filterMap fun (p, e) =>
    match e with
    | .file content =>
      if p.take folder.length = folder then some (p.drop folder.length, content) else none
    | _ => none

/-- The files of a folder that are not in an earlier state, or with another content. -/
def changedSince (w earlier : Workspace) (folder : Path) : List (Path × Bytes) :=
  (w.filesUnder folder).filter fun (p, content) =>
    earlier.find? (folder ++ p) ≠ some (.file content)

end Workspace
end Conveyor
