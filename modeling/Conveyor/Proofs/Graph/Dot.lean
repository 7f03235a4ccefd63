import Conveyor.Graph.Picture
import Conveyor.Proofs.Graph.Drawing
import Conveyor.Proofs.Text.Lines
import Mathlib.Data.List.Nodup

/-!
# Conveyor.Proofs.Graph.Dot

What a DOT diagram tells of its graph.

Names stand between quotes, and no valid name has a quote. So a line with four quotes is an edge
and tells its two ends, and a line with two is a stage on its own. The edges are drawn as they are
stored, but the stages on their own are found in the tables of neighbours. As both were filled with
the same pairs, every stage is in the diagram.

* `lines_dot`   — the lines that are read of a diagram.
* `Drawn`       — what they say of the stages.
* `drawn_lines` — they say it of every graph with names of valid stages.
* `dot_exact`   — what the diagram of a valid definition tells.
-/

namespace Conveyor
namespace Graph

variable {g : Graph} {stages : List Stage}

/-! ## Lines -/

def dotEdgeLine (e : String × String) : String := "    \"" ++ e.1 ++ "\" -> \"" ++ e.2 ++ "\";"

def dotNodeLine (n : String) : String := "    \"" ++ n ++ "\";"

def namedEdges (g : Graph) : List (String × String) :=
  g.edges.map fun e => (g.name e.1, g.name e.2)

def aloneNames (g : Graph) : List String := ((List.range g.size).filter g.isAlone).map g.name

def dotHead : List String :=
  ["digraph pipeline \x7b", "    rankdir=TB;", "    node [shape=box, style=rounded];", ""]

def dotLines (g : Graph) : List String :=
  dotHead ++ (g.namedEdges.map dotEdgeLine ++ (g.aloneNames.map dotNodeLine ++ ["\x7d"]))

theorem dot_eq_printed (g : Graph) : g.dot = Text.printed g.dotLines := by
  have hedge : (fun e : Nat × Nat => dotEdge (g.name e.1) (g.name e.2)) =
      (· ++ "\n") ∘ dotEdgeLine ∘ fun e => (g.name e.1, g.name e.2) := by
    funext e
    simp [dotEdge, dotEdgeLine, String.append_assoc]
  have hnode : (fun i => dotNode (g.name i)) = (· ++ "\n") ∘ dotNodeLine ∘ g.name := by
    funext i
    simp [dotNode, dotNodeLine, String.append_assoc]
  have hhead : "digraph pipeline \x7b\n    rankdir=TB;\n    node [shape=box, style=rounded];\n\n" =
      String.join (dotHead.map (· ++ "\n")) := by decide +kernel
  have hdot : g.dot =
      "digraph pipeline \x7b\n    rankdir=TB;\n    node [shape=box, style=rounded];\n\n" ++
        String.join (g.edges.map fun e => dotEdge (g.name e.1) (g.name e.2)) ++
        String.join (((List.range g.size).filter g.isAlone).map fun i => dotNode (g.name i)) ++
        "\x7d\n" := rfl
  rw [hdot, hhead, hedge, hnode, Text.printed, dotLines, namedEdges, aloneNames]
  simp [String.append_assoc]

theorem toList_dotEdgeLine (e : String × String) :
    (dotEdgeLine e).toList =
      "    \"".toList ++
        (e.1.toList ++ '"' :: (" -> \"".toList ++ (e.2.toList ++ ['"', ';']))) := by
  simp [dotEdgeLine]

theorem toList_dotNodeLine (n : String) :
    (dotNodeLine n).toList = "    \"".toList ++ (n.toList ++ ['"', ';']) := by
  simp [dotNodeLine]

/-- No line is broken by what is drawn in it. -/
theorem tidy_dotLines (h : ∀ i, ∀ c ∈ (g.name i).toList, NameChar c) :
    ∀ l ∈ g.dotLines, Text.Tidy l.toList := by
  refine List.forall_mem_append.2 ⟨?_, List.forall_mem_append.2 ⟨?_,
    List.forall_mem_append.2 ⟨?_, ?_⟩⟩⟩
  · intro l hl
    simp only [dotHead, List.mem_cons, List.not_mem_nil, or_false] at hl
    rcases hl with rfl | rfl | rfl | rfl <;> exact Text.tidy_of_all rfl
  · refine List.forall_mem_map.2 fun e he => Text.tidy_of_all ?_
    obtain ⟨⟨d, i⟩, _, rfl⟩ := List.mem_map.1 he
    rw [toList_dotEdgeLine, List.all_append, List.all_append, List.all_cons, List.all_append,
      List.all_append, all_tidy_of_nameChar (h d), all_tidy_of_nameChar (h i)]
    rfl
  · refine List.forall_mem_map.2 fun n hn => Text.tidy_of_all ?_
    obtain ⟨i, _, rfl⟩ := List.mem_map.1 hn
    rw [toList_dotNodeLine, List.all_append, List.all_append, all_tidy_of_nameChar (h i)]
    rfl
  · exact List.forall_mem_singleton.2 (Text.tidy_of_all rfl)

theorem lines_dot (h : ∀ i, ∀ c ∈ (g.name i).toList, NameChar c) :
    Text.lines g.dot = g.dotLines := by
  rw [dot_eq_printed, Text.lines_printed (tidy_dotLines h)]

/-! ## Quotes -/

/-- How many quotes a line has. -/
def quotes (line : String) : Nat := line.toList.count '"'

theorem quotes_dotEdgeLine (e : String × String) :
    quotes (dotEdgeLine e) = quotes e.1 + quotes e.2 + 4 := by
  rw [quotes, toList_dotEdgeLine]
  simp [quotes]
  omega

theorem quotes_dotNodeLine (n : String) : quotes (dotNodeLine n) = quotes n + 2 := by
  rw [quotes, toList_dotNodeLine]
  simp [quotes]

theorem quotes_of_nameChar {n : String} (h : ∀ c ∈ n.toList, NameChar c) : quotes n = 0 :=
  List.count_eq_zero.2 fun hmem => NameChar.free _ (by decide) (h _ hmem)

theorem dotEdgeLine_inj {e e' : String × String} (h : quotes e.1 = 0) (h' : quotes e.2 = 0)
    (heq : dotEdgeLine e' = dotEdgeLine e) : e' = e := by
  have hquotes := congrArg quotes heq
  rw [quotes_dotEdgeLine, quotes_dotEdgeLine, h, h'] at hquotes
  have hfree : ∀ {n : String}, quotes n = 0 → '"' ∉ n.toList := fun h => List.count_eq_zero.1 h
  have hchars := congrArg String.toList heq
  rw [toList_dotEdgeLine, toList_dotEdgeLine, List.append_cancel_left_eq,
    Text.append_cons_inj (hfree (by omega)) (hfree h), List.append_cancel_left_eq,
    Text.append_cons_inj (hfree (by omega)) (hfree h')] at hchars
  exact Prod.ext (String.toList_inj.1 hchars.1) (String.toList_inj.1 hchars.2.1)

theorem dotNodeLine_inj {n n' : String} (heq : dotNodeLine n' = dotNodeLine n) : n' = n := by
  have hchars := congrArg String.toList heq
  rw [toList_dotNodeLine, toList_dotNodeLine, List.append_cancel_left_eq,
    List.append_cancel_right_eq] at hchars
  exact String.toList_inj.1 hchars

theorem quotes_frame : ∀ l ∈ dotHead ++ ["\x7d"], quotes l = 0 := by decide +kernel

/-- A line with quotes is an edge or a stage. -/
theorem count_dotLines {l : String} (h : quotes l ≠ 0) :
    g.dotLines.count l =
      (g.namedEdges.map dotEdgeLine).count l + (g.aloneNames.map dotNodeLine).count l := by
  have hframe : ∀ ls : List String, (∀ l ∈ ls, l ∈ dotHead ++ ["\x7d"]) → ls.count l = 0 := by
    intro ls hls
    exact List.count_eq_zero.2 fun hmem => h (quotes_frame l (hls l hmem))
  rw [dotLines, List.count_append, List.count_append, List.count_append,
    hframe dotHead fun _ => List.mem_append_left _,
    hframe ["\x7d"] fun _ => List.mem_append_right _]
  omega

theorem count_map_of_inj {α β : Type} [BEq α] [LawfulBEq α] [BEq β] [LawfulBEq β] {f : α → β}
    {l : List α} {a : α} (h : ∀ b ∈ l, f a = f b → a = b) : (l.map f).count (f a) = l.count a := by
  rw [List.count, List.countP_map, List.count]
  refine List.countP_congr fun b hb => ?_
  simp only [Function.comp_apply, beq_iff_eq]
  exact ⟨fun heq => (h b hb heq.symm).symm, congrArg f⟩

theorem count_dotEdgeLine (h : ∀ i, ∀ c ∈ (g.name i).toList, NameChar c)
    (e : String × String) : g.dotLines.count (dotEdgeLine e) = g.namedEdges.count e := by
  have hedges : ∀ e' ∈ g.namedEdges, dotEdgeLine e = dotEdgeLine e' → e = e' := by
    intro e' he'
    obtain ⟨⟨d, i⟩, _, rfl⟩ := List.mem_map.1 he'
    exact dotEdgeLine_inj (quotes_of_nameChar (h d)) (quotes_of_nameChar (h i))
  have hnodes : (g.aloneNames.map dotNodeLine).count (dotEdgeLine e) = 0 := by
    refine List.count_eq_zero.2 fun hmem => ?_
    obtain ⟨n, hn, heq⟩ := List.mem_map.1 hmem
    obtain ⟨i, _, rfl⟩ := List.mem_map.1 hn
    have hquotes := congrArg quotes heq
    rw [quotes_dotNodeLine, quotes_dotEdgeLine, quotes_of_nameChar (h i)] at hquotes
    omega
  rw [count_dotLines (by rw [quotes_dotEdgeLine]; omega), count_map_of_inj hedges, hnodes,
    Nat.add_zero]

theorem count_dotNodeLine {n : String} (h : quotes n = 0) :
    g.dotLines.count (dotNodeLine n) = g.aloneNames.count n := by
  have hedges : (g.namedEdges.map dotEdgeLine).count (dotNodeLine n) = 0 := by
    refine List.count_eq_zero.2 fun hmem => ?_
    obtain ⟨e, _, heq⟩ := List.mem_map.1 hmem
    have hquotes := congrArg quotes heq
    rw [quotes_dotNodeLine, quotes_dotEdgeLine, h] at hquotes
    omega
  rw [count_dotLines (by rw [quotes_dotNodeLine]; omega), hedges,
    count_map_of_inj fun _ _ => dotNodeLine_inj, Nat.zero_add]

/-! ## Diagrams -/

namespace Describes

theorem mem_namedEdges_iff (h : g.Describes stages) {m n : String} :
    (m, n) ∈ g.namedEdges ↔ Feeds stages m n := by
  rw [namedEdges, List.mem_map]
  constructor
  · rintro ⟨⟨d, i⟩, hedge, heq⟩
    cases heq
    exact h.feeds_of_needs (h.agrees.mem_edges.1 hedge)
  · intro hf
    obtain ⟨d, i, hd, hi, hneed⟩ := h.needs_of_feeds hf
    obtain ⟨_, rfl⟩ := h.index?_iff.1 hd
    obtain ⟨_, rfl⟩ := h.index?_iff.1 hi
    exact ⟨(d, i), h.agrees.mem_edges.2 hneed, rfl⟩

theorem nodup_namedEdges (h : g.Describes stages) : g.namedEdges.Nodup := by
  refine h.agrees.links.single.map_on ?_
  rintro ⟨d, i⟩ he ⟨d', i'⟩ he' heq
  obtain ⟨hi, hdlt⟩ := h.agrees.inRange i d (h.agrees.mem_edges.1 he)
  obtain ⟨hi', hdlt'⟩ := h.agrees.inRange i' d' (h.agrees.mem_edges.1 he')
  obtain ⟨hd, hn⟩ := Prod.mk.inj heq
  have hplace : ∀ {j j' : Nat}, j < g.size → j' < g.size → g.name j = g.name j' → j = j' := by
    intro j j' hj hj' hname
    exact Option.some.inj ((h.index?_iff.2 ⟨hj, hname⟩).symm.trans (h.index?_iff.2 ⟨hj', rfl⟩))
  rw [hplace hdlt hdlt' hd, hplace hi hi' hn]

theorem mem_aloneNames_iff (h : g.Describes stages) {n : String} :
    n ∈ g.aloneNames ↔ n ∈ g.names ∧ ∀ m, ¬ Feeds stages m n ∧ ¬ Feeds stages n m := by
  refine h.mem_map_name_filter (P := fun n => ∀ m, ¬ Feeds stages m n ∧ ¬ Feeds stages n m) ?_
  intro i hi
  rw [isAlone, Bool.and_eq_true, List.isEmpty_iff, List.isEmpty_iff,
    h.predecessorsOf_eq_nil_iff hi, h.successorsOf_eq_nil_iff hi, forall_and]

end Describes

theorem nameChar_name (h : ∀ n ∈ g.names, ∀ c ∈ n.toList, NameChar c) (i : Nat) :
    ∀ c ∈ (g.name i).toList, NameChar c := by
  rw [name, List.getD_eq_getElem?_getD]
  cases hname : g.names[i]? with
  | none => simp
  | some n => exact h n (List.mem_of_getElem? hname)

/-- What is read of the diagram of a valid definition. -/
structure Drawn (stages : List Stage) (lines : List String) : Prop where
  edge : ∀ m n, lines.count (dotEdgeLine (m, n)) ≤ 1 ∧
    (dotEdgeLine (m, n) ∈ lines ↔ Feeds stages m n)
  node : ∀ n, quotes n = 0 → (dotNodeLine n ∈ lines ↔
    n ∈ stages.map (·.name) ∧ ∀ m, ¬ Feeds stages m n ∧ ¬ Feeds stages n m)

theorem drawn_lines (h : g.Describes stages) (hchars : ∀ n ∈ g.names, ∀ c ∈ n.toList, NameChar c) :
    Drawn stages (Text.lines g.dot) := by
  have hname := nameChar_name hchars
  rw [lines_dot hname]
  refine ⟨fun m n => ?_, fun n hn => ?_⟩
  · rw [← List.count_pos_iff, count_dotEdgeLine hname, List.count_pos_iff, h.mem_namedEdges_iff]
    exact ⟨List.nodup_iff_count_le_one.1 h.nodup_namedEdges (m, n), Iff.rfl⟩
  · rw [← List.count_pos_iff, count_dotNodeLine hn, List.count_pos_iff, h.mem_aloneNames_iff,
      h.names]

/-- A stage that has no line of its own has the line of an edge. -/
theorem Drawn.mentions {lines : List String} (h : Drawn stages lines) {n : String}
    (hn : n ∈ stages.map (·.name)) (hquotes : quotes n = 0) :
    dotNodeLine n ∈ lines ∨ ∃ m, dotEdgeLine (m, n) ∈ lines ∨ dotEdgeLine (n, m) ∈ lines := by
  by_cases halone : ∃ m, Feeds stages m n ∨ Feeds stages n m
  · obtain ⟨m, hf | hf⟩ := halone
    · exact .inr ⟨m, .inl ((h.edge m n).2.2 hf)⟩
    · exact .inr ⟨m, .inr ((h.edge n m).2.2 hf)⟩
  · refine .inl ((h.node n hquotes).2 ⟨hn, fun m => ⟨?_, ?_⟩⟩)
    · exact fun hf => halone ⟨m, .inl hf⟩
    · exact fun hf => halone ⟨m, .inr hf⟩

theorem Drawn.name_of_mentions {lines : List String} (h : Drawn stages lines)
    (hg : g.Describes stages) {n : String} (hquotes : quotes n = 0)
    (hn : dotNodeLine n ∈ lines ∨ ∃ m, dotEdgeLine (m, n) ∈ lines ∨ dotEdgeLine (n, m) ∈ lines) :
    n ∈ stages.map (·.name) := by
  rw [← hg.names]
  rcases hn with hnode | ⟨m, hedge | hedge⟩
  · exact hg.names ▸ ((h.node n hquotes).1 hnode).1
  · exact (hg.known ((h.edge m n).2.1 hedge)).2
  · exact (hg.known ((h.edge n m).2.1 hedge)).1

/-- In the diagram of a valid definition, the lines between two names are the dependencies, once
each. Every stage is in some line, and has one of its own exactly if it has neither dependencies nor
dependents. Two valid definitions with one diagram have the same names of stages, and the same
dependencies between them. -/
theorem dot_exact {p p' : Pipeline} {g' : Graph} (h : p.ensureValid = .ok g)
    (h' : p'.ensureValid = .ok g') :
    (∀ m n, (Text.lines g.dot).count (dotEdgeLine (m, n)) ≤ 1 ∧
      (dotEdgeLine (m, n) ∈ Text.lines g.dot ↔ Feeds p.stages m n)) ∧
    (∀ s ∈ p.stages,
      (dotNodeLine s.name ∈ Text.lines g.dot ∨ ∃ n,
        dotEdgeLine (n, s.name) ∈ Text.lines g.dot ∨
        dotEdgeLine (s.name, n) ∈ Text.lines g.dot) ∧
      (dotNodeLine s.name ∈ Text.lines g.dot ↔
        ∀ n, ¬ Feeds p.stages n s.name ∧ ¬ Feeds p.stages s.name n)) ∧
    (g.dot = g'.dot →
      (∀ n, n ∈ p.stages.map (·.name) ↔ n ∈ p'.stages.map (·.name)) ∧
      ∀ m n, Feeds p.stages m n ↔ Feeds p'.stages m n) := by
  obtain ⟨hg, hchars⟩ := nameChar_of_ensureValid h
  obtain ⟨hg', hchars'⟩ := nameChar_of_ensureValid h'
  have hdrawn := drawn_lines hg hchars
  have hdrawn' := drawn_lines hg' hchars'
  have hquotes : ∀ n ∈ p.stages.map (·.name), quotes n = 0 := by
    rw [← hg.names]
    exact fun n hn => quotes_of_nameChar (hchars n hn)
  have hquotes' : ∀ n ∈ p'.stages.map (·.name), quotes n = 0 := by
    rw [← hg'.names]
    exact fun n hn => quotes_of_nameChar (hchars' n hn)
  refine ⟨hdrawn.edge, fun s hs => ?_, fun heq => ?_⟩
  · have hname : s.name ∈ p.stages.map (·.name) := List.mem_map_of_mem hs
    exact ⟨hdrawn.mentions hname (hquotes _ hname),
      (hdrawn.node _ (hquotes _ hname)).trans (and_iff_right hname)⟩
  · rw [← heq] at hdrawn'
    refine ⟨fun n => ⟨fun hn => ?_, fun hn => ?_⟩, fun m n => ?_⟩
    · have hq := hquotes n hn
      exact hdrawn'.name_of_mentions hg' hq (hdrawn.mentions hn hq)
    · have hq := hquotes' n hn
      exact hdrawn.name_of_mentions hg hq (hdrawn'.mentions hn hq)
    · exact (hdrawn.edge m n).2.symm.trans (hdrawn'.edge m n).2

/-- A site with its tests; the stage that needs nothing is declared first or last. -/
def sitePipeline (first last : List Stage) : Pipeline :=
  { name := "site",
    stages := first ++
      [ { name := "build", run := .script "make" },
        { name := "test", run := .script "test", dependsOn := ["build"] } ] ++ last }

def docsStage : Stage := { name := "docs", run := .script "doc" }

/-- Where a stage is declared does not show if it stands on its own. -/
theorem dot_exact_site : ∃ g g', (sitePipeline [docsStage] []).ensureValid = .ok g ∧
    (sitePipeline [] [docsStage]).ensureValid = .ok g' ∧ g.dot = g'.dot ∧
    g.edges = [(1, 2)] ∧ g'.edges = [(0, 1)] ∧
    dotEdgeLine ("build", "test") ∈ Text.lines g.dot ∧
    ∀ m n, Feeds (sitePipeline [docsStage] []).stages m n ↔
      Feeds (sitePipeline [] [docsStage]).stages m n := by
  let g : Graph :=
    { names := ["docs", "build", "test"]
      places := .ofList [("docs", 0), ("build", 1), ("test", 2)]
      edges := [(1, 2)]
      predecessors := [[], [], [1]]
      successors := [[], [2], []] }
  let g' : Graph :=
    { names := ["build", "test", "docs"]
      places := .ofList [("build", 0), ("test", 1), ("docs", 2)]
      edges := [(0, 1)]
      predecessors := [[], [0], []]
      successors := [[1], [], []] }
  have hg : (sitePipeline [docsStage] []).ensureValid = .ok g := rfl
  have hg' : (sitePipeline [] [docsStage]).ensureValid = .ok g' := rfl
  have hdot : g.dot = g'.dot := by decide +kernel
  obtain ⟨hedges, _, hsame⟩ := dot_exact hg hg'
  have hfeeds : Feeds (sitePipeline [docsStage] []).stages "build" "test" :=
    ⟨_, List.mem_cons_of_mem _ (List.mem_cons_of_mem _ List.mem_cons_self), rfl,
      .inl List.mem_cons_self⟩
  exact ⟨g, g', hg, hg', hdot, rfl, rfl, (hedges _ _).2.2 hfeeds, (hsame hdot).2⟩

end Graph
end Conveyor
