/-!
# Conveyor.Graph.Links

Which stage waits for which. The pairs are kept three times: as edges, and for each stage as the
list of its dependencies and the list of its dependents.

* `Links.connect` — one more pair, put into all three.
* `Links.tidy`    — with every list of neighbours ascending and free of repetitions.
-/

namespace Conveyor

/-! ## Ascending lists -/

namespace Graph

def insertAscending (i : Nat) : List Nat → List Nat
  | [] => [i]
  | j :: rest => if i ≤ j then i :: j :: rest else j :: insertAscending i rest

def sortAscending (l : List Nat) : List Nat := l.foldr insertAscending []

/-- A list without the elements that repeat the one before them. -/
def dropRepeats : List Nat → List Nat
  | [] => []
  | [i] => [i]
  | i :: j :: rest => if i = j then dropRepeats (j :: rest) else i :: dropRepeats (j :: rest)

end Graph

/-! ## Links -/

structure Links where
  /-- The pairs of a dependency and its dependent, once each, in order of mention. -/
  edges : List (Nat × Nat)
  predecessors : List (List Nat)
  successors : List (List Nat)
  deriving DecidableEq, Repr, Inhabited

namespace Links

/-- No links between a number of stages. -/
def blank (size : Nat) : Links where
  edges := []
  predecessors := List.replicate size []
  successors := List.replicate size []

/-- The neighbours of a stage in one of the two tables. -/
def row (table : List (List Nat)) (i : Nat) : List Nat := table.getD i []

/-- Links a dependency to its dependent. An edge that is stored already stays where it is; the
tables take every mention. -/
def connect (l : Links) (d i : Nat) : Links where
  edges := if (d, i) ∈ l.edges then l.edges else l.edges ++ [(d, i)]
  predecessors := l.predecessors.modify i (· ++ [d])
  successors := l.successors.modify d (· ++ [i])

def tidyTable (table : List (List Nat)) : List (List Nat) :=
  table.map fun row => Graph.dropRepeats (Graph.sortAscending row)

def tidy (l : Links) : Links where
  edges := l.edges
  predecessors := tidyTable l.predecessors
  successors := tidyTable l.successors

end Links
end Conveyor
