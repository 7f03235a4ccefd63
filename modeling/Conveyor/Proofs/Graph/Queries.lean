import Conveyor.Proofs.Graph.Cycle
import Conveyor.Proofs.Graph.Least
import Conveyor.Proofs.Graph.Reachability
import Mathlib.Data.List.Sort

/-!
# Conveyor.Proofs.Graph.Queries

Everything a graph answers, read off one relation.

The relation is `Feeds`, between the names of the stages. The names have a dictionary of their
places, and the links are stored three times: as edges, as dependencies and as dependents. All of
them were filled in one pass (`Describes`), so each says the same as the definitions of the stages.
Whether a stage depends on another is found by a search along the edges, which are the steps of the
relation (`transGen_edge_iff`).

* `OneRelation`   — what each store and each query answers.
* `queries_agree` — every graph that construction answers with answers so.
-/

namespace Conveyor
namespace Graph

variable {g : Graph} {stages : List Stage}

/-! ## Names and places -/

theorem map_name_range (g : Graph) : (List.range g.size).map g.name = g.names := by
  refine List.ext_getElem (by simp [size]) ?_
  intro i hi hi'
  simp [name, hi']

/-- The names of ascending stages stand in the order of the declaration. -/
theorem map_name_sublist {l : List Nat} (hl : l.Pairwise (· < ·)) (hlt : ∀ i ∈ l, i < g.size) :
    (l.map g.name).Sublist g.names := by
  have hnodup : l.Nodup := hl.imp Nat.ne_of_lt
  have hmem : l ⊆ List.range g.size := fun i hi => List.mem_range.2 (hlt i hi)
  have hsub : l.Sublist (List.range g.size) :=
    List.sublist_of_subperm_of_pairwise (hnodup.subperm hmem) hl List.pairwise_lt_range
  have hnames := hsub.map g.name
  rwa [map_name_range] at hnames

namespace Describes

theorem mem_names_iff (h : g.Describes stages) {n : String} :
    n ∈ g.names ↔ ∃ i, g.index? n = some i := by
  rw [List.mem_iff_getElem?]
  exact exists_congr fun i => (h.places n i).symm

theorem index?_iff (h : g.Describes stages) {n : String} {i : Nat} :
    g.index? n = some i ↔ i < g.size ∧ g.name i = n := by
  rw [h.index?_eq_some_iff]
  constructor
  · rintro ⟨s, hs, rfl⟩
    obtain ⟨hi, _⟩ := List.getElem?_eq_some_iff.1 hs
    exact ⟨h.size_eq ▸ hi, h.name_eq hs⟩
  · rintro ⟨hi, rfl⟩
    obtain ⟨s, hs⟩ := h.exists_stage hi
    exact ⟨s, hs, (h.name_eq hs).symm⟩

theorem mem_names_of_lt (h : g.Describes stages) {i : Nat} (hi : i < g.size) :
    g.name i ∈ g.names :=
  h.mem_names_iff.2 ⟨i, h.index?_iff.2 ⟨hi, rfl⟩⟩

theorem needs_of_feeds (h : g.Describes stages) {m n : String} (hf : Feeds stages m n) :
    ∃ d i, g.index? m = some d ∧ g.index? n = some i ∧ g.Needs i d := by
  obtain ⟨s, hs, rfl, hw⟩ := hf
  obtain ⟨i, hi⟩ := List.mem_iff_getElem?.1 hs
  obtain ⟨d, hd, hneed⟩ := h.needs_of_waitsFor hi hw
  exact ⟨d, i, hd, h.index?_eq_some_iff.2 ⟨s, hi, rfl⟩, hneed⟩

theorem needs_iff_feeds (h : g.Describes stages) {i d : Nat} (hi : i < g.size)
    (hd : d < g.size) : g.Needs i d ↔ Feeds stages (g.name d) (g.name i) := by
  refine ⟨h.feeds_of_needs, fun hf => ?_⟩
  obtain ⟨d', i', hd', hi', hneed⟩ := h.needs_of_feeds hf
  cases hd'.symm.trans (h.index?_iff.2 ⟨hd, rfl⟩)
  cases hi'.symm.trans (h.index?_iff.2 ⟨hi, rfl⟩)
  exact hneed

end Describes

/-! ## Reachability -/

theorem transGen_edge_iff (h : g.Describes stages) {a b : String} {i j : Nat}
    (hi : g.index? a = some i) (hj : g.index? b = some j) :
    Relation.TransGen g.Edge i j ↔ Relation.TransGen (Feeds stages) a b := by
  obtain ⟨_, hname⟩ := h.index?_iff.1 hi
  obtain ⟨_, hname'⟩ := h.index?_iff.1 hj
  constructor
  · intro hpath
    have hstep : ∀ k l, g.Edge k l → Feeds stages (g.name k) (g.name l) :=
      fun _ _ hedge => h.feeds_of_needs (h.agrees.mem_edges.1 hedge)
    have hnames : Relation.TransGen (Feeds stages) (g.name i) (g.name j) :=
      hpath.lift g.name hstep
    rwa [hname, hname'] at hnames
  · intro hpath
    let place := fun n => (g.index? n).getD 0
    have hstep : ∀ m n, Feeds stages m n → g.Edge (place m) (place n) := by
      intro m n hf
      obtain ⟨d, k, hd, hk, hneed⟩ := h.needs_of_feeds hf
      simp only [place, hd, hk, Option.getD_some]
      exact h.agrees.mem_edges.2 hneed
    have hplaces : Relation.TransGen g.Edge (place a) (place b) := hpath.lift place hstep
    simpa only [place, hi, hj, Option.getD_some] using hplaces

theorem dependsOn_iff_edges {a b : String} :
    g.dependsOn a b = true ↔ ∃ i j, g.index? a = some i ∧ g.index? b = some j ∧ i ≠ j ∧
      Relation.TransGen g.Edge j i := by
  cases hi : g.index? a with
  | none => simp [dependsOn, hi]
  | some i =>
    cases hj : g.index? b with
    | none => simp [dependsOn, hi, hj]
    | some j =>
      have hpath : i ≠ j → (Relation.ReflTransGen g.Edge j i ↔ Relation.TransGen g.Edge j i) := by
        intro hne
        rw [Relation.reflTransGen_iff_eq_or_transGen]
        exact or_iff_right hne
      simpa [dependsOn, hi, hj, mem_reachedFrom] using hpath

/-- One stage depends on another exactly if its name is reached from the other's in one step or
more. That two places have to differ leaves nothing out, as no stage reaches itself. -/
theorem dependsOn_iff (h : g.Describes stages) (hacyclic : ¬ Cyclic stages) {a b : String} :
    g.dependsOn a b = true ↔
      a ∈ g.names ∧ b ∈ g.names ∧ Relation.TransGen (Feeds stages) b a := by
  rw [dependsOn_iff_edges, h.mem_names_iff, h.mem_names_iff]
  constructor
  · rintro ⟨i, j, hi, hj, _, hpath⟩
    exact ⟨⟨i, hi⟩, ⟨j, hj⟩, (transGen_edge_iff h hj hi).1 hpath⟩
  · rintro ⟨⟨i, hi⟩, ⟨j, hj⟩, hpath⟩
    refine ⟨i, j, hi, hj, ?_, (transGen_edge_iff h hj hi).2 hpath⟩
    rintro rfl
    have hab : a = b := (h.index?_iff.1 hi).2.symm.trans (h.index?_iff.1 hj).2
    exact hacyclic ⟨b, hab ▸ hpath⟩

theorem dependsOn_self (h : g.Describes stages) (hacyclic : ¬ Cyclic stages) (a : String) :
    g.dependsOn a a = false := by
  refine Bool.eq_false_iff.2 fun hself => ?_
  exact hacyclic ⟨a, ((dependsOn_iff h hacyclic).1 hself).2.2⟩

theorem dependsOn_trans (h : g.Describes stages) (hacyclic : ¬ Cyclic stages) {a b c : String}
    (hab : g.dependsOn a b = true) (hbc : g.dependsOn b c = true) : g.dependsOn a c = true := by
  obtain ⟨ha, _, hba⟩ := (dependsOn_iff h hacyclic).1 hab
  obtain ⟨_, hc, hcb⟩ := (dependsOn_iff h hacyclic).1 hbc
  exact (dependsOn_iff h hacyclic).2 ⟨ha, hc, hcb.trans hba⟩

theorem Describes.idxOf_lt_of_transGen (h : g.Describes stages) (ho : g.Ordered) {d i : Nat}
    (hpath : Relation.TransGen g.Edge d i) : g.order.idxOf d < g.order.idxOf i := by
  have hstep : ∀ k l, g.Edge k l → g.order.idxOf k < g.order.idxOf l :=
    fun _ _ hedge => h.idxOf_lt_of_needs ho (h.agrees.mem_edges.1 hedge)
  induction hpath with
  | single hedge => exact hstep _ _ hedge
  | tail _ hedge ih => exact Nat.lt_trans ih (hstep _ _ hedge)

/-! ## All queries -/

/-- An answer about a name. There is none if no stage has it. Otherwise it lists stages with a
property, all of them, in the order of their declaration. -/
def Lists (g : Graph) (n : String) (P : String → Prop) : Option (List String) → Prop
  | none => n ∉ g.names
  | some l => n ∈ g.names ∧ l.Sublist g.names ∧ ∀ m, m ∈ l ↔ P m

/-- What the queries of a graph say about its stages. -/
structure OneRelation (g : Graph) (stages : List Stage) : Prop where
  names : g.names = stages.map (·.name)
  /-- Looking up a name and naming a place undo each other. -/
  index?_iff : ∀ n i, g.index? n = some i ↔ i < g.size ∧ g.name i = n
  /-- Only stages feed stages. -/
  known : ∀ m n, Feeds stages m n → m ∈ g.names ∧ n ∈ g.names
  predecessors : ∀ i d, d ∈ g.predecessorsOf i ↔
    i < g.size ∧ d < g.size ∧ Feeds stages (g.name d) (g.name i)
  transposed : ∀ i d, i ∈ g.successorsOf d ↔ d ∈ g.predecessorsOf i
  ascending : ∀ i, (g.predecessorsOf i).Pairwise (· < ·) ∧ (g.successorsOf i).Pairwise (· < ·)
  inRange : ∀ i, (∀ d ∈ g.predecessorsOf i, d < g.size) ∧ ∀ j ∈ g.successorsOf i, j < g.size
  /-- There is a list of neighbours for every stage. -/
  tables : g.predecessors.length = g.size ∧ g.successors.length = g.size
  /-- The edges are stored once each. -/
  edges : g.edges.Nodup ∧ ∀ d i, (d, i) ∈ g.edges ↔ d ∈ g.predecessorsOf i
  dependencies : ∀ n, g.Lists n (fun m => Feeds stages m n) (g.dependenciesOf n)
  dependents : ∀ n, g.Lists n (fun m => Feeds stages n m) (g.dependentsOf n)
  roots : g.roots.Sublist g.names ∧
    ∀ n, n ∈ g.roots ↔ n ∈ g.names ∧ ∀ m, ¬ Feeds stages m n
  reaches : ∀ a b, g.dependsOn a b = true ↔
    a ∈ g.names ∧ b ∈ g.names ∧ Relation.TransGen (Feeds stages) b a
  irreflexive : ∀ a, g.dependsOn a a = false
  transitive : ∀ a b c, g.dependsOn a b = true → g.dependsOn b c = true → g.dependsOn a c = true
  asymmetric : ∀ a b, g.dependsOn a b = true → g.dependsOn b a = false
  /-- What a stage depends on comes before it. -/
  precedes : ∀ a b, g.dependsOn a b = true → ∀ i j, g.index? a = some i → g.index? b = some j →
    i ∈ g.order ∧ j ∈ g.order ∧ g.order.idxOf j < g.order.idxOf i

namespace Describes

theorem mem_map_name_filter (h : g.Describes stages) {p : Nat → Bool} {P : String → Prop}
    (hp : ∀ i, i < g.size → (p i = true ↔ P (g.name i))) {n : String} :
    n ∈ ((List.range g.size).filter p).map g.name ↔ n ∈ g.names ∧ P n := by
  rw [List.mem_map]
  constructor
  · rintro ⟨i, hi, rfl⟩
    obtain ⟨hlt, hchosen⟩ := List.mem_filter.1 hi
    have hlt := List.mem_range.1 hlt
    exact ⟨h.mem_names_of_lt hlt, (hp i hlt).1 hchosen⟩
  · rintro ⟨hn, hP⟩
    obtain ⟨i, hi⟩ := h.mem_names_iff.1 hn
    obtain ⟨hlt, rfl⟩ := h.index?_iff.1 hi
    exact ⟨i, List.mem_filter.2 ⟨List.mem_range.2 hlt, (hp i hlt).2 hP⟩, rfl⟩

theorem known (h : g.Describes stages) {m n : String} (hf : Feeds stages m n) :
    m ∈ g.names ∧ n ∈ g.names := by
  obtain ⟨d, i, hd, hi, _⟩ := h.needs_of_feeds hf
  exact ⟨h.mem_names_iff.2 ⟨d, hd⟩, h.mem_names_iff.2 ⟨i, hi⟩⟩

theorem lists_neighbours (h : g.Describes stages) {neighbours : Nat → List Nat}
    {P : String → String → Prop} (hascending : ∀ i, (neighbours i).Pairwise (· < ·))
    (hlt : ∀ i, ∀ j ∈ neighbours i, j < g.size)
    (hP : ∀ i j, i < g.size → j < g.size → (j ∈ neighbours i ↔ P (g.name i) (g.name j)))
    (hknown : ∀ m n, P n m → m ∈ g.names) (n : String) :
    g.Lists n (P n) ((g.index? n).map fun i => (neighbours i).map g.name) := by
  cases hi : g.index? n with
  | none =>
    intro hn
    obtain ⟨i, hsome⟩ := h.mem_names_iff.1 hn
    rw [hi] at hsome
    cases hsome
  | some i =>
    obtain ⟨hisize, rfl⟩ := h.index?_iff.1 hi
    refine ⟨h.mem_names_of_lt hisize, map_name_sublist (hascending i) (hlt i), ?_⟩
    intro m
    rw [List.mem_map]
    constructor
    · rintro ⟨j, hj, rfl⟩
      exact (hP i j hisize (hlt i j hj)).1 hj
    · intro hm
      obtain ⟨j, hj⟩ := h.mem_names_iff.1 (hknown m _ hm)
      obtain ⟨hjsize, rfl⟩ := h.index?_iff.1 hj
      exact ⟨j, (hP i j hisize hjsize).2 hm, rfl⟩

theorem predecessorsOf_eq_nil_iff (h : g.Describes stages) {i : Nat} (hi : i < g.size) :
    g.predecessorsOf i = [] ↔ ∀ m, ¬ Feeds stages m (g.name i) := by
  rw [List.eq_nil_iff_forall_not_mem]
  constructor
  · intro hnone m hf
    obtain ⟨d, i', _, hi', hneed⟩ := h.needs_of_feeds hf
    cases hi'.symm.trans (h.index?_iff.2 ⟨hi, rfl⟩)
    exact hnone d hneed
  · intro hnone d hneed
    exact hnone (g.name d) (h.feeds_of_needs hneed)

theorem successorsOf_eq_nil_iff (h : g.Describes stages) {i : Nat} (hi : i < g.size) :
    g.successorsOf i = [] ↔ ∀ m, ¬ Feeds stages (g.name i) m := by
  rw [List.eq_nil_iff_forall_not_mem]
  constructor
  · intro hnone m hf
    obtain ⟨i', j, hi', _, hneed⟩ := h.needs_of_feeds hf
    cases hi'.symm.trans (h.index?_iff.2 ⟨hi, rfl⟩)
    exact hnone j (h.agrees.mem_successorsOf.2 hneed)
  · intro hnone j hj
    exact hnone (g.name j) (h.feeds_of_needs (h.agrees.mem_successorsOf.1 hj))

end Describes

/-- Of every graph that construction answers with, all queries describe what the definitions of the
stages say. -/
theorem queries_agree (h : ofStages stages = .ok g) : g.OneRelation stages := by
  obtain ⟨hg, hcycle⟩ := describes_of_ofStages h
  obtain ⟨rank, hrank⟩ := exists_rank hg.agrees hcycle
  have hordered := ordered_of_rank hg.agrees hrank
  have hacyclic := hg.not_cyclic hrank
  constructor
  case names => exact hg.names
  case index?_iff => exact fun _ _ => hg.index?_iff
  case known => exact fun _ _ => hg.known
  case predecessors =>
    intro i d
    rw [mem_predecessorsOf]
    constructor
    · intro hneed
      exact ⟨hg.lt_of_needs hneed, hg.lt_of_needed hneed, hg.feeds_of_needs hneed⟩
    · rintro ⟨hi, hd, hf⟩
      exact (hg.needs_iff_feeds hi hd).2 hf
  case transposed => exact fun _ _ => hg.agrees.mem_successorsOf
  case ascending => exact hg.agrees.ascending
  case inRange =>
    intro i
    exact ⟨fun d hd => hg.lt_of_needed hd, fun j hj => hg.agrees.lt_of_mem_successorsOf hj⟩
  case edges => exact ⟨hg.agrees.links.single, fun _ _ => hg.agrees.mem_edges⟩
  case tables => exact hg.agrees.links.sizes
  case dependencies =>
    refine hg.lists_neighbours (P := fun n m => Feeds stages m n)
      (fun i => (hg.agrees.ascending i).1) (fun i d hd => hg.lt_of_needed hd) ?_
      fun m n hf => (hg.known hf).1
    exact fun i d hi hd => hg.needs_iff_feeds hi hd
  case dependents =>
    refine hg.lists_neighbours (P := fun n m => Feeds stages n m)
      (fun i => (hg.agrees.ascending i).2) (fun i j hj => hg.agrees.lt_of_mem_successorsOf hj) ?_
      fun m n hf => (hg.known hf).2
    exact fun d i hd hi => hg.agrees.mem_successorsOf.trans (hg.needs_iff_feeds hi hd)
  case roots =>
    refine ⟨map_name_sublist (List.pairwise_lt_range.filter _)
      fun i hi => List.mem_range.1 (List.mem_filter.1 hi).1, fun _ =>
      hg.mem_map_name_filter (P := fun n => ∀ m, ¬ Feeds stages m n) fun i hi => ?_⟩
    rw [List.isEmpty_iff, hg.predecessorsOf_eq_nil_iff hi]
  case reaches => exact fun _ _ => dependsOn_iff hg hacyclic
  case irreflexive => exact dependsOn_self hg hacyclic
  case transitive => exact fun _ _ _ => dependsOn_trans hg hacyclic
  case asymmetric =>
    intro a b hab
    refine Bool.eq_false_iff.2 fun hba => ?_
    have hself := dependsOn_trans hg hacyclic hab hba
    rw [dependsOn_self hg hacyclic] at hself
    cases hself
  case precedes =>
    intro a b hab i j hi hj
    obtain ⟨hlt, _⟩ := hg.index?_iff.1 hi
    obtain ⟨hlt', _⟩ := hg.index?_iff.1 hj
    obtain ⟨_, _, hpath⟩ := (dependsOn_iff hg hacyclic).1 hab
    exact ⟨(hordered.mem_iff i).2 hlt, (hordered.mem_iff j).2 hlt',
      hg.idxOf_lt_of_transGen hordered ((transGen_edge_iff hg hj hi).2 hpath)⟩

/-- A package that needs the version as an input, and a release that needs the package and more. -/
def packageStages : List Stage :=
  [ { name := "release", run := .script "push", dependsOn := ["package", "lint"] },
    { name := "lint", run := .script "lint" },
    { name := "package", run := .script "make",
      inputs := Dict.ofList [("TAG", { stage := "version", key := "tag" })] },
    { name := "version", run := .script "git describe", outputs := ["tag"] } ]

theorem queries_agree_package : ∃ g, ofStages packageStages = .ok g ∧
    g.OneRelation packageStages ∧ g.dependsOn "release" "version" = true ∧
    g.dependenciesOf "release" = some ["lint", "package"] := by
  let g : Graph :=
    { names := ["release", "lint", "package", "version"]
      places := .ofList [("release", 0), ("lint", 1), ("package", 2), ("version", 3)]
      edges := [(2, 0), (1, 0), (3, 2)]
      predecessors := [[1, 2], [], [3], []]
      successors := [[], [0], [0], [2]] }
  have hg : ofStages packageStages = .ok g := rfl
  exact ⟨g, hg, queries_agree hg, by decide +kernel, by decide +kernel⟩

end Graph
end Conveyor
