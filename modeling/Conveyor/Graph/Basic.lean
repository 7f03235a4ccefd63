import Conveyor.Error
import Conveyor.Graph.Links
import Conveyor.Pipeline.Basic

/-!
# Conveyor.Graph.Basic

The dependency graph of a list of stages. A stage is its index in declaration order. Its
neighbours are read off the tables of the links, what it reaches is found along the edges.

* `Graph.ofStages`  — the graph, or the first thing that is wrong: a repeated name, a dependency
                      that names no stage, a cycle.
* `Graph.order`     — all stages, each after its dependencies; of the stages that could come
                      next, the one declared first does.
* `Graph.dependsOn` — a stage needs another one, directly or through others.

The order is found by counting: every stage starts with the number of its dependencies, and a
stage that is placed lowers the counts of its dependents.
-/

namespace Conveyor

/-- Names with their places, and the links between the places. -/
structure Graph extends Links where
  names : List String
  places : Dict Nat
  deriving DecidableEq, Repr, Inhabited

namespace Graph

def size (g : Graph) : Nat := g.names.length

def isEmpty (g : Graph) : Bool := g.names.isEmpty

/-- The name of a stage; empty for an index that is none. -/
def name (g : Graph) (i : Nat) : String := g.names.getD i ""

def index? (g : Graph) (name : String) : Option Nat := g.places.get? name

/-- The direct dependencies of a stage. -/
def predecessorsOf (g : Graph) (i : Nat) : List Nat := Links.row g.predecessors i

/-- The direct dependents of a stage. -/
def successorsOf (g : Graph) (i : Nat) : List Nat := Links.row g.successors i

def roots (g : Graph) : List String :=
  ((List.range g.size).filter fun i => (g.predecessorsOf i).isEmpty).map g.name

def dependenciesOf (g : Graph) (name : String) : Option (List String) :=
  (g.index? name).map fun i => (g.predecessorsOf i).map g.name

def dependentsOf (g : Graph) (name : String) : Option (List String) :=
  (g.index? name).map fun i => (g.successorsOf i).map g.name

/-! ## Reachability -/

/-- Where the edges lead from a stage. -/
def targetsOf (g : Graph) (d : Nat) : List Nat := (g.edges.filter (·.1 = d)).map (·.2)

/-- The stages met from a list of stages to visit, going along the edges. -/
def collect (g : Graph) : Nat → List Nat → List Nat → List Nat
  | 0, _, seen => seen
  | _ + 1, [], seen => seen
  | fuel + 1, i :: todo, seen =>
    if i ∈ seen then collect g fuel todo seen
    else collect g fuel (g.targetsOf i ++ todo) (i :: seen)

/-- The stages met from one stage, which is met first. Every other visit is asked for by an
edge. -/
def reachedFrom (g : Graph) (d : Nat) : List Nat := g.collect (g.edges.length + 1) [d] []

/-- The first stage needs the second, directly or through others. Names of no stage need
nothing. -/
def dependsOn (g : Graph) (a b : String) : Bool :=
  match g.index? a, g.index? b with
  | some i, some j => i ≠ j && (g.reachedFrom j).contains i
  | _, _ => false

/-! ## Order -/

/-- Counts of open dependencies, and the stages without any, ascending. -/
structure Sweep where
  counts : List Nat
  ready : List Nat
  deriving DecidableEq, Repr

/-- One dependency of a stage is placed. Nothing, if its count was zero already. -/
def Sweep.lower? (s : Sweep) (i : Nat) : Option Sweep :=
  match s.counts[i]? with
  | none | some 0 => none
  | some 1 => some { counts := s.counts.set i 0, ready := insertAscending i s.ready }
  | some (n + 2) => some { s with counts := s.counts.set i (n + 1) }

def Sweep.lowerAll? (s : Sweep) : List Nat → Option Sweep
  | [] => some s
  | i :: rest =>
    match s.lower? i with
    | none => none
    | some s => s.lowerAll? rest

/-- The stages in order from a state of the counts. -/
def sweepFrom? (g : Graph) : Nat → Sweep → Option (List Nat)
  | 0, _ => some []
  | fuel + 1, s =>
    match s.ready with
    | [] => some []
    | i :: ready =>
      match ({ s with ready } : Sweep).lowerAll? (g.successorsOf i) with
      | none => none
      | some s => (sweepFrom? g fuel s).map (i :: ·)

def sweepStart (g : Graph) : Sweep where
  counts := (List.range g.size).map fun i => (g.predecessorsOf i).length
  ready := (List.range g.size).filter fun i => (g.predecessorsOf i).isEmpty

/-- The stages in order; nothing, if a count would fall below zero. -/
def sweep? (g : Graph) : Option (List Nat) := g.sweepFrom? g.size g.sweepStart

/-- All stages, each after its dependencies, the earliest declared first. -/
def order (g : Graph) : List Nat := g.sweep?.getD []

def orderNames (g : Graph) : List String := g.order.map g.name

/-! ## Cycles -/

/-- Visits a stage that was not met before and everything behind it. `path` leads to it, in
reverse, and `done` holds the stages with nothing wrong behind them. A dependent on the path
closes a cycle. -/
def visit (g : Graph) : Nat → List Nat → List Nat → Nat → Except (List Nat) (List Nat)
  | 0, _, done, _ => .ok done
  | fuel + 1, path, done, node =>
    let path := node :: path
    let step := fun done next =>
      if next ∈ path then
        .error (next :: (next :: path.takeWhile (· ≠ next)).reverse)
      else if next ∈ done then .ok done
      else visit g fuel path done next
    match (g.successorsOf node).foldlM step done with
    | .error cycle => .error cycle
    | .ok done => .ok (node :: done)

/-- The first cycle of a search from every stage in turn, its first stage repeated at the
end. -/
def cycle? (g : Graph) : Option (List Nat) :=
  let step := fun done node => if node ∈ done then .ok done else g.visit (g.size + 1) [] done node
  match (List.range g.size).foldlM step [] with
  | .error cycle => some cycle
  | .ok _ => none

/-! ## Construction -/

/-- The names of a list take the places from `i` on. No name is given two. -/
def register (i : Nat) (places : Dict Nat) : List String → Except Error (Dict Nat)
  | [] => .ok places
  | n :: rest =>
    if places.contains n then .error (.duplicateStage n)
    else register (i + 1) (places.insert n i) rest

/-- Links the names that stage `i` waits for to it. -/
def link (places : Dict Nat) (i : Nat) (stage : String) :
    List String → Links → Except Error Links
  | [], l => .ok l
  | dep :: rest, l =>
    match places.get? dep with
    | none => .error (.unknownDependency stage dep)
    | some d => link places i stage rest (l.connect d i)

/-- Links the stages of a list, which begins at place `i`, to all that they wait for. -/
def linkAll (places : Dict Nat) (i : Nat) : List Stage → Links → Except Error Links
  | [], l => .ok l
  | s :: rest, l =>
    match link places i s.name s.dependencyNames l with
    | .error e => .error e
    | .ok l => linkAll places (i + 1) rest l

def ofStages (stages : List Stage) : Except Error Graph :=
  let names := stages.map (·.name)
  match register 0 ∅ names with
  | .error e => .error e
  | .ok places =>
    match linkAll places 0 stages (.blank stages.length) with
    | .error e => .error e
    | .ok links =>
      let g : Graph := { links.tidy with names, places }
      match g.cycle? with
      | some cycle => .error (.cyclicDependency (cycle.map g.name))
      | none => .ok g

end Graph

def Pipeline.graph (p : Pipeline) : Except Error Graph := Graph.ofStages p.stages

end Conveyor
