import Conveyor.Proofs.Pipeline.Validity

/-!
# Conveyor.Proofs.Pipeline.Policies

A definition in which one stage has the default policy, whatever it had before.

No check of a definition looks at the policy of a stage, except for a warning. So with another
policy the graph is the same, and the checks let the definition pass exactly if they did before.

* `Stage.plain`, `Pipeline.plain` — the stage, and the definition, with the default policy.
* `Stage.plainAt_congr`           — what does not look at the policy sees no difference.
* `Pipeline.ensureValid_plain`    — the definition may run if the first one may, on the same graph.
-/

namespace Conveyor

/-- The stage with the policy that stages have by default. -/
def Stage.plain (s : Stage) : Stage := { s with onFailure := .propagate }

/-- A stage of the definition in which the stage `k` has the default policy. -/
def Stage.plainAt (s : Stage) (k i : Nat) : Stage := if i = k then s.plain else s

def Pipeline.plain (p : Pipeline) (k : Nat) : Pipeline :=
  { p with stages := p.stages.modify k Stage.plain }

variable {p : Pipeline} {g : Graph} {k : Nat}

namespace Stage

theorem plainAt_self (s : Stage) (k : Nat) : s.plainAt k k = s.plain := if_pos rfl

theorem plainAt_congr {α : Type} {f : Stage → α} {s : Stage} {k i : Nat}
    (hf : i = k → f s.plain = f s) : f (s.plainAt k i) = f s := by
  rw [plainAt]
  split
  · rename_i hi
    exact hf hi
  · rfl

theorem map_modify_plain {α : Type} {f : Stage → α} (hf : ∀ s, f s.plain = f s) (l : List Stage)
    (k : Nat) : (l.modify k plain).map f = l.map f := by
  apply List.ext_getElem?
  intro i
  rw [List.getElem?_map, List.getElem?_map, List.getElem?_modify]
  cases l[i]? with
  | none => rfl
  | some s =>
    by_cases hi : k = i
    · simp [hi, hf]
    · simp [hi]

theorem forall_mem_modify_plain {P : Stage → Prop} (hP : ∀ s, P s.plain ↔ P s) (l : List Stage)
    (k : Nat) : (∀ s ∈ l.modify k plain, P s) ↔ ∀ s ∈ l, P s := by
  have hall : ∀ l : List Stage, (∀ s ∈ l, P s) ↔ ∀ q ∈ l.map P, q := by
    intro l
    rw [List.forall_mem_map]
  rw [hall, hall, map_modify_plain fun s => propext (hP s)]

theorem find?_modify_plain {test : Stage → Bool} (htest : ∀ s, test s.plain = test s)
    (l : List Stage) (k : Nat) :
    ((l.modify k plain).find? test).map plain = (l.find? test).map plain := by
  have hcomp : test ∘ plain = test := funext htest
  have hfind : ∀ l : List Stage, (l.find? test).map plain = (l.map plain).find? test := by
    intro l
    rw [List.find?_map, hcomp]
  rw [hfind, hfind, map_modify_plain fun _ => rfl]

end Stage

/-! ## The graph -/

theorem Graph.linkAll_map_plain (places : Dict Nat) (stages : List Stage) (i : Nat) (l : Links) :
    linkAll places i (stages.map Stage.plain) l = linkAll places i stages l := by
  induction stages generalizing i l with
  | nil => rfl
  | cons s rest ih =>
    simp only [List.map_cons, linkAll, ih]
    rfl

theorem Graph.ofStages_map_plain (l : List Stage) : ofStages (l.map Stage.plain) = ofStages l := by
  have hnames : (l.map Stage.plain).map (·.name) = l.map (·.name) := by
    rw [List.map_map]
    rfl
  simp only [ofStages, hnames, linkAll_map_plain, List.length_map]

namespace Pipeline

theorem graph_plain (p : Pipeline) (k : Nat) : (p.plain k).graph = p.graph := by
  rw [graph, graph, ← Graph.ofStages_map_plain, ← Graph.ofStages_map_plain p.stages, plain,
    Stage.map_modify_plain fun _ => rfl]

/-! ## The checks -/

theorem stage?_plain (p : Pipeline) (k : Nat) (name : String) :
    ((p.plain k).stage? name).map Stage.plain = (p.stage? name).map Stage.plain :=
  Stage.find?_modify_plain (fun _ => rfl) p.stages k

theorem declares_plain {name key : String} :
    (∀ t, (p.plain k).stage? name = some t → key ∈ t.outputs) ↔
      ∀ t, p.stage? name = some t → key ∈ t.outputs := by
  have hmap : ∀ found : Option Stage, (∀ t, found = some t → key ∈ t.outputs) ↔
      ∀ t, found.map Stage.plain = some t → key ∈ t.outputs := by
    intro found
    cases found with
    | none => simp
    | some s => simp [Stage.plain]
  rw [hmap, stage?_plain, ← hmap]

theorem clean_stageFindings_plain {s : Stage} :
    Validation.Clean (Validation.stageFindings (p.plain k) s) ↔
      Validation.Clean (Validation.stageFindings p s) := by
  simp only [Validation.clean_stageFindings, declares_plain]

theorem clean_ofPipeline_plain : Validation.Clean (Validation.ofPipeline (p.plain k)).findings ↔
    Validation.Clean (Validation.ofPipeline p).findings := by
  have hempty : (p.plain k).stages = [] ↔ p.stages = [] := by
    rw [← List.length_eq_zero_iff, plain, List.length_modify, List.length_eq_zero_iff]
  have hpolicy : ∀ s : Stage, Validation.Clean (Validation.stageFindings p s.plain) ↔
      Validation.Clean (Validation.stageFindings p s) := by
    intro s
    rw [Validation.clean_stageFindings, Validation.clean_stageFindings]
    rfl
  simp only [Validation.clean_ofPipeline, ne_eq, hempty, graph_plain, clean_stageFindings_plain]
  rw [plain, Stage.forall_mem_modify_plain hpolicy]

/-- The definition with the default policy may run if the first one may, on the same graph. -/
theorem ensureValid_plain (h : p.ensureValid = .ok g) (k : Nat) :
    (p.plain k).ensureValid = .ok g := by
  have hgraph : (p.plain k).graph = .ok g := (graph_plain p k).trans (graph_of_ensureValid h)
  have hclean : Validation.Clean (Validation.ofPipeline (p.plain k)).findings :=
    clean_ofPipeline_plain.2 (Validation.errors_eq_nil_iff.1 (errors_of_ensureValid h))
  simp only [ensureValid, hgraph, Validation.errors_eq_nil_iff.2 hclean]

end Pipeline
end Conveyor
