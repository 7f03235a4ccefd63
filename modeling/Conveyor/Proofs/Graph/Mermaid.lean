import Conveyor.Graph.Picture
import Conveyor.Proofs.Graph.Drawing
import Conveyor.Proofs.Text.Lines
import Mathlib.Data.List.Forall2

/-!
# Conveyor.Proofs.Graph.Mermaid

What a Mermaid diagram tells of its graph.

The line of a stage has its name in brackets, so the text tells the names. The line of an edge has
two ids. An id has an underscore for a dash, and names may have both, so names that differ in
nothing else share their id (`Lookalike`). A diagram tells apart what no two such names are in.

* `mermaidId_eq_iff` — which names share an id.
* `mermaid_eq_iff`   — which graphs share a diagram.
* `mermaid_exact`    — what the diagram of a valid definition tells.
-/

namespace Conveyor
namespace Graph

/-- Names that differ at most in having an underscore for a dash here and there. -/
def Lookalike (a b : String) : Prop :=
  List.Forall₂ (fun c d => c = d ∨ c = '-' ∧ d = '_' ∨ c = '_' ∧ d = '-') a.toList b.toList

theorem map_eq_map_iff {α β γ : Type} {f : α → γ} {f' : β → γ} {l : List α} {m : List β} :
    l.map f = m.map f' ↔ List.Forall₂ (fun a b => f a = f' b) l m := by
  rw [← List.forall₂_eq_eq_eq, List.forall₂_map_left_iff, List.forall₂_map_right_iff]

/-! ## Ids -/

theorem toList_mermaidId (n : String) :
    (mermaidId n).toList = n.toList.map fun c => if c.isAlphanum then c else '_' :=
  String.toList_ofList

theorem nameChar_mermaidId (n : String) : ∀ c ∈ (mermaidId n).toList, NameChar c := by
  rw [toList_mermaidId]
  refine List.forall_mem_map.2 fun c _ => ?_
  by_cases hc : c.isAlphanum = true
  · rw [if_pos hc]
    rcases isAlphanum_iff.1 hc with hletter | hdigit
    · exact .inl hletter
    · exact .inr (.inl hdigit)
  · rw [if_neg hc]
    exact .inr (.inr (.inl rfl))

theorem not_mem_mermaidId (n : String) :
    ∀ c ∈ ['\n', '\r', ' ', '[', '"'], c ∉ (mermaidId n).toList :=
  fun c hc hmem => NameChar.free c hc (nameChar_mermaidId n c hmem)

theorem toList_mermaidId_of_named {n : String} (h : ∀ c ∈ n.toList, NameChar c) :
    (mermaidId n).toList = n.toList.map fun c => if c = '-' then '_' else c := by
  rw [toList_mermaidId]
  refine List.map_congr_left fun c hc => ?_
  by_cases halnum : c.isAlphanum = true
  · have hdash : c ≠ '-' := by
      rintro rfl
      exact absurd halnum (by decide)
    rw [if_pos halnum, if_neg hdash]
  · rw [if_neg halnum]
    rcases h c hc with hletter | hdigit | rfl | rfl
    · exact absurd (isAlphanum_iff.2 (.inl hletter)) halnum
    · exact absurd (isAlphanum_iff.2 (.inr hdigit)) halnum
    · rfl
    · rfl

theorem mermaidId_eq_iff {a b : String} (ha : ∀ c ∈ a.toList, NameChar c)
    (hb : ∀ c ∈ b.toList, NameChar c) : mermaidId a = mermaidId b ↔ Lookalike a b := by
  rw [← String.toList_inj, toList_mermaidId_of_named ha, toList_mermaidId_of_named hb,
    map_eq_map_iff, Lookalike]
  have hchar : ∀ c d : Char, ((if c = '-' then '_' else c) = if d = '-' then '_' else d) ↔
      c = d ∨ c = '-' ∧ d = '_' ∨ c = '_' ∧ d = '-' := by
    intro c d
    by_cases hc : c = '-'
    · subst hc
      by_cases hd : d = '-'
      · simp [hd]
      · simp [hd, Ne.symm hd, eq_comm]
    · by_cases hd : d = '-'
      · simp [hc, hd]
      · simp [hc, hd]
  simp only [hchar]

/-! ## Lines -/

variable {g g' : Graph} {stages stages' : List Stage}

def nodeLine (n : String) : String := "    " ++ mermaidId n ++ "[" ++ n ++ "]"

def edgeLine (e : String × String) : String := "    " ++ e.1 ++ " --> " ++ e.2

/-- The edges as they are drawn, from id to id. -/
def drawnEdges (g : Graph) : List (String × String) :=
  g.edges.map fun e => (mermaidId (g.name e.1), mermaidId (g.name e.2))

/-- The lines of a diagram below its title. -/
def drawnLines (g : Graph) : List String := g.names.map nodeLine ++ g.drawnEdges.map edgeLine

theorem mermaid_eq_printed (g : Graph) : g.mermaid = Text.printed ("graph TD" :: g.drawnLines) := by
  have hnode : mermaidNode = (· ++ "\n") ∘ nodeLine := by
    funext n
    simp [mermaidNode, nodeLine, String.append_assoc]
  have hedge : (fun e : Nat × Nat => mermaidEdge (g.name e.1) (g.name e.2)) =
      (· ++ "\n") ∘ edgeLine ∘ fun e => (mermaidId (g.name e.1), mermaidId (g.name e.2)) := by
    funext e
    simp [mermaidEdge, edgeLine, String.append_assoc]
  have hmermaid : g.mermaid = "graph TD\n" ++ String.join (g.names.map mermaidNode) ++
      String.join (g.edges.map fun e => mermaidEdge (g.name e.1) (g.name e.2)) := rfl
  rw [hmermaid, hnode, hedge, Text.printed, drawnLines, drawnEdges]
  simp [String.append_assoc]

theorem toList_nodeLine (n : String) :
    (nodeLine n).toList =
      "    ".toList ++ ((mermaidId n).toList ++ '[' :: (n.toList ++ [']'])) := by
  simp [nodeLine]

theorem toList_edgeLine (e : String × String) :
    (edgeLine e).toList =
      "    ".toList ++ (e.1.toList ++ ' ' :: ("--> ".toList ++ e.2.toList)) := by
  simp [edgeLine]

theorem nodeLine_inj {m n : String} (h : nodeLine m = nodeLine n) : m = n := by
  have hfree : ∀ n, '[' ∉ (mermaidId n).toList := fun n => not_mem_mermaidId n _ (by decide)
  have hchars := congrArg String.toList h
  rw [toList_nodeLine, toList_nodeLine, List.append_cancel_left_eq,
    Text.append_cons_inj (hfree m) (hfree n), List.append_cancel_right_eq] at hchars
  exact String.toList_inj.1 hchars.2

theorem edgeLine_inj {m n m' n' : String} :
    edgeLine (mermaidId m, mermaidId n) = edgeLine (mermaidId m', mermaidId n') ↔
      (mermaidId m, mermaidId n) = (mermaidId m', mermaidId n') := by
  have hfree : ∀ n, ' ' ∉ (mermaidId n).toList := fun n => not_mem_mermaidId n _ (by decide)
  rw [← String.toList_inj, toList_edgeLine, toList_edgeLine, List.append_cancel_left_eq,
    Text.append_cons_inj (hfree m) (hfree m'), List.append_cancel_left_eq, String.toList_inj,
    String.toList_inj, Prod.mk.injEq]

/-- The drawn lines tell which of them are nodes, and all that they were drawn of. -/
theorem drawnLines_inj :
    g.drawnLines = g'.drawnLines ↔ g.names = g'.names ∧ g.drawnEdges = g'.drawnEdges := by
  have hnodes : ∀ l : List String, (l.map nodeLine).filter ('[' ∈ ·.toList) = l.map nodeLine := by
    intro l
    refine List.filter_eq_self.2 (List.forall_mem_map.2 fun n _ => ?_)
    simp [toList_nodeLine]
  have hedges : ∀ g : Graph, (g.drawnEdges.map edgeLine).filter ('[' ∈ ·.toList) = [] := by
    intro g
    refine List.filter_eq_nil_iff.2 (List.forall_mem_map.2 fun e he => ?_)
    obtain ⟨⟨d, i⟩, _, rfl⟩ := List.mem_map.1 he
    have hfree : ∀ n, '[' ∉ (mermaidId n).toList := fun n => not_mem_mermaidId n _ (by decide)
    simp [toList_edgeLine, hfree]
  constructor
  · intro h
    have hfilter := congrArg (List.filter ('[' ∈ ·.toList)) h
    simp only [drawnLines, List.filter_append, hnodes, hedges, List.append_nil] at hfilter
    have hnames : g.names = g'.names := (List.map_inj_right fun _ _ => nodeLine_inj).1 hfilter
    refine ⟨hnames, ?_⟩
    rw [drawnLines, drawnLines, hnames, List.append_cancel_left_eq, drawnEdges, drawnEdges,
      List.map_map, List.map_map, map_eq_map_iff] at h
    rw [drawnEdges, drawnEdges, map_eq_map_iff]
    simpa only [Function.comp_apply, edgeLine_inj] using h
  · rintro ⟨hnames, hdrawn⟩
    rw [drawnLines, drawnLines, hnames, hdrawn]

theorem tidy_drawnLines (h : ∀ n ∈ g.names, ∀ c ∈ n.toList, NameChar c) :
    ∀ l ∈ "graph TD" :: g.drawnLines, Text.Tidy l.toList := by
  refine List.forall_mem_cons.2 ⟨Text.tidy_of_all rfl, List.forall_mem_append.2 ⟨?_, ?_⟩⟩
  · refine List.forall_mem_map.2 fun n hn => Text.tidy_of_all ?_
    rw [toList_nodeLine, List.all_append, List.all_append, List.all_cons, List.all_append,
      all_tidy_of_nameChar (nameChar_mermaidId n), all_tidy_of_nameChar (h n hn)]
    rfl
  · refine List.forall_mem_map.2 fun e he => Text.tidy_of_all ?_
    obtain ⟨⟨d, i⟩, _, rfl⟩ := List.mem_map.1 he
    rw [toList_edgeLine, List.all_append, List.all_append, List.all_cons, List.all_append,
      all_tidy_of_nameChar (nameChar_mermaidId (g.name d)),
      all_tidy_of_nameChar (nameChar_mermaidId (g.name i))]
    rfl

theorem lines_mermaid (h : ∀ n ∈ g.names, ∀ c ∈ n.toList, NameChar c) :
    Text.lines g.mermaid = "graph TD" :: g.drawnLines := by
  rw [mermaid_eq_printed, Text.lines_printed (tidy_drawnLines h)]

theorem mermaid_eq_iff (h : ∀ n ∈ g.names, ∀ c ∈ n.toList, NameChar c)
    (h' : ∀ n ∈ g'.names, ∀ c ∈ n.toList, NameChar c) :
    g.mermaid = g'.mermaid ↔ g.names = g'.names ∧ g.drawnEdges = g'.drawnEdges := by
  rw [← drawnLines_inj]
  constructor
  · intro heq
    have hlines := congrArg Text.lines heq
    rw [lines_mermaid h, lines_mermaid h'] at hlines
    exact (List.cons.inj hlines).2
  · intro heq
    rw [mermaid_eq_printed, mermaid_eq_printed, heq]

/-! ## Diagrams -/

theorem mem_drawnEdges_iff (h : g.Describes stages) {x y : String} :
    (x, y) ∈ g.drawnEdges ↔ ∃ m n, Feeds stages m n ∧ mermaidId m = x ∧ mermaidId n = y := by
  rw [drawnEdges, List.mem_map]
  constructor
  · rintro ⟨⟨d, i⟩, hedge, heq⟩
    obtain ⟨hx, hy⟩ := Prod.mk.inj heq
    exact ⟨g.name d, g.name i, h.feeds_of_needs (h.agrees.mem_edges.1 hedge), hx, hy⟩
  · rintro ⟨m, n, hf, rfl, rfl⟩
    obtain ⟨d, i, hd, hi, hneed⟩ := h.needs_of_feeds hf
    obtain ⟨_, rfl⟩ := h.index?_iff.1 hd
    obtain ⟨_, rfl⟩ := h.index?_iff.1 hi
    exact ⟨(d, i), h.agrees.mem_edges.2 hneed, rfl⟩

/-- If no two names share an id, the drawn edges are the dependencies. -/
theorem feeds_of_drawn (h : g.Describes stages) (h' : g'.Describes stages')
    (hnames : g.names = g'.names) (hdrawn : g.drawnEdges = g'.drawnEdges)
    (hapart : ∀ m ∈ g.names, ∀ n ∈ g.names, mermaidId m = mermaidId n → m = n) {m n : String}
    (hf : Feeds stages m n) : Feeds stages' m n := by
  have hmem := (mem_drawnEdges_iff h).2 ⟨m, n, hf, rfl, rfl⟩
  rw [hdrawn] at hmem
  obtain ⟨m', n', hf', hm, hn⟩ := (mem_drawnEdges_iff h').1 hmem
  obtain ⟨hknown, hknown'⟩ := h.known hf
  obtain ⟨hother, hother'⟩ := h'.known hf'
  rw [← hnames] at hother hother'
  rw [← hapart m' hother m hknown hm, ← hapart n' hother' n hknown' hn]
  exact hf'

/-- The diagram of a valid definition has a line for each stage and each dependency. Two stages
share an id exactly if their names look alike. Diagrams are equal exactly if the names are and the
edges from id to id are. So two valid definitions with one diagram have the same stages; and, if no
two of them look alike, the same dependencies. -/
theorem mermaid_exact {p p' : Pipeline} (h : p.ensureValid = .ok g)
    (h' : p'.ensureValid = .ok g') :
    Text.lines g.mermaid =
      "graph TD" :: (p.stages.map (nodeLine ·.name) ++ g.drawnEdges.map edgeLine) ∧
    (∀ s ∈ p.stages, ∀ t ∈ p.stages,
      (mermaidId s.name = mermaidId t.name ↔ Lookalike s.name t.name)) ∧
    (g.mermaid = g'.mermaid ↔
      p.stages.map (·.name) = p'.stages.map (·.name) ∧ g.drawnEdges = g'.drawnEdges) ∧
    (∀ x y, (x, y) ∈ g.drawnEdges ↔
      ∃ m n, Feeds p.stages m n ∧ mermaidId m = x ∧ mermaidId n = y) ∧
    (g.mermaid = g'.mermaid →
      (∀ s ∈ p.stages, ∀ t ∈ p.stages, Lookalike s.name t.name → s.name = t.name) →
        ∀ m n, Feeds p.stages m n ↔ Feeds p'.stages m n) := by
  obtain ⟨hg, hchars⟩ := nameChar_of_ensureValid h
  obtain ⟨hg', hchars'⟩ := nameChar_of_ensureValid h'
  have hids : ∀ m ∈ g.names, ∀ n ∈ g.names, (mermaidId m = mermaidId n ↔ Lookalike m n) :=
    fun m hm n hn => mermaidId_eq_iff (hchars m hm) (hchars n hn)
  have hstage : ∀ s ∈ p.stages, s.name ∈ g.names := by
    intro s hs
    rw [hg.names]
    exact List.mem_map_of_mem hs
  refine ⟨?_, fun s hs t ht => hids _ (hstage s hs) _ (hstage t ht), ?_,
    fun _ _ => mem_drawnEdges_iff hg, ?_⟩
  · rw [lines_mermaid hchars, drawnLines, hg.names, List.map_map]
    rfl
  · rw [← hg.names, ← hg'.names]
    exact mermaid_eq_iff hchars hchars'
  · intro heq hunlike m n
    obtain ⟨hnames, hdrawn⟩ := (mermaid_eq_iff hchars hchars').1 heq
    have hapart : ∀ m ∈ g.names, ∀ n ∈ g.names, mermaidId m = mermaidId n → m = n := by
      intro m hm n hn hid
      have hlook := (hids m hm n hn).1 hid
      rw [hg.names] at hm hn
      obtain ⟨s, hs, rfl⟩ := List.mem_map.1 hm
      obtain ⟨t, ht, rfl⟩ := List.mem_map.1 hn
      exact hunlike s hs t ht hlook
    exact ⟨feeds_of_drawn hg hg' hnames hdrawn hapart,
      feeds_of_drawn hg' hg hnames.symm hdrawn.symm (hnames ▸ hapart)⟩

/-- Two stages that look alike, and one that needs the stage of a name. -/
def twinPipeline (needed : String) : Pipeline :=
  { name := "twins",
    stages :=
      [ { name := "a-b", run := .script "make" },
        { name := "a_b", run := .script "make" },
        { name := "deploy", run := .script "push", dependsOn := [needed] } ] }

/-- It cannot be seen which of the twins is needed. -/
theorem mermaid_exact_twins : ∃ g g', (twinPipeline "a-b").ensureValid = .ok g ∧
    (twinPipeline "a_b").ensureValid = .ok g' ∧ g.mermaid = g'.mermaid ∧
    g.edges = [(0, 2)] ∧ g'.edges = [(1, 2)] ∧ Lookalike "a-b" "a_b" := by
  let g : Graph :=
    { names := ["a-b", "a_b", "deploy"]
      places := .ofList [("a-b", 0), ("a_b", 1), ("deploy", 2)]
      edges := [(0, 2)]
      predecessors := [[], [], [0]]
      successors := [[2], [], []] }
  let g' : Graph :=
    { names := ["a-b", "a_b", "deploy"]
      places := .ofList [("a-b", 0), ("a_b", 1), ("deploy", 2)]
      edges := [(1, 2)]
      predecessors := [[], [], [1]]
      successors := [[], [2], []] }
  have hg : (twinPipeline "a-b").ensureValid = .ok g := rfl
  have hg' : (twinPipeline "a_b").ensureValid = .ok g' := rfl
  obtain ⟨_, hids, hdiagrams, _⟩ := mermaid_exact hg hg'
  have hdrawn : g.drawnEdges = g'.drawnEdges := by decide +kernel
  have hid : mermaidId "a-b" = mermaidId "a_b" := by decide +kernel
  have hlook := hids _ List.mem_cons_self _ (List.mem_cons_of_mem _ List.mem_cons_self)
  exact ⟨g, g', hg, hg', hdiagrams.2 ⟨rfl, hdrawn⟩, rfl, rfl, hlook.1 hid⟩

end Graph
end Conveyor
