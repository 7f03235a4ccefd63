import Conveyor.Graph.Basic

/-!
# Conveyor.Graph.Picture

Drawings of a dependency graph.

* `Graph.mermaid` — a Mermaid diagram: every stage, then every edge.
* `Graph.dot`     — a DOT diagram: every edge, then the stages without edges.
* `Graph.listing` — the order of execution as numbered lines.
-/

namespace Conveyor
namespace Graph

/-- A diagram id: every character but an ASCII letter or digit becomes an underscore. -/
def mermaidId (name : String) : String :=
  String.ofList (name.toList.map fun c => if c.isAlphanum then c else '_')

def mermaidNode (name : String) : String := "    " ++ mermaidId name ++ "[" ++ name ++ "]\n"

def mermaidEdge (source target : String) : String :=
  "    " ++ mermaidId source ++ " --> " ++ mermaidId target ++ "\n"

def mermaid (g : Graph) : String :=
  "graph TD\n" ++ String.join (g.names.map mermaidNode) ++
    String.join (g.edges.map fun (d, i) => mermaidEdge (g.name d) (g.name i))

def dotEdge (source target : String) : String :=
  "    \"" ++ source ++ "\" -> \"" ++ target ++ "\";\n"

def dotNode (name : String) : String := "    \"" ++ name ++ "\";\n"

/-- A stage without any edge. -/
def isAlone (g : Graph) (i : Nat) : Bool :=
  (g.predecessorsOf i).isEmpty && (g.successorsOf i).isEmpty

def dot (g : Graph) : String :=
  "digraph pipeline \x7b\n    rankdir=TB;\n    node [shape=box, style=rounded];\n\n" ++
    String.join (g.edges.map fun (d, i) => dotEdge (g.name d) (g.name i)) ++
    String.join (((List.range g.size).filter g.isAlone).map fun i => dotNode (g.name i)) ++
    "\x7d\n"

def listingLine (g : Graph) (p : Pipeline) (place i : Nat) : String :=
  let group :=
    match (p.stages[i]?).bind (·.concurrencyGroup) with
    | some group => " <" ++ group ++ ">"
    | none => ""
  let needs :=
    match g.predecessorsOf i with
    | [] => ""
    | deps => " [depends: " ++ ", ".intercalate (deps.map g.name) ++ "]"
  toString place ++ ". " ++ g.name i ++ group ++ needs ++ "\n"

def listingFrom (g : Graph) (p : Pipeline) : Nat → List Nat → String
  | _, [] => ""
  | place, i :: rest => g.listingLine p place i ++ listingFrom g p (place + 1) rest

def listing (g : Graph) (p : Pipeline) : String := g.listingFrom p 1 g.order

end Graph
end Conveyor
