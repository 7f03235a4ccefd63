import Conveyor.Proofs.Graph.Acyclic
import Mathlib.Data.List.Chain
import Mathlib.Data.List.Infix
import Mathlib.Data.List.Nodup
import Mathlib.Logic.Relation

/-!
# Conveyor.Proofs.Graph.Cycle

Which lists of stages make a graph, and what is said about the others.

The path of the search, read backwards, goes from each stage to one of its dependents. When the
next dependent is on the path already, the part of the path from there on is a cycle, and as no
stage is on the path twice it is a simple one (`visit_error`). The other way round, a search that
finds nothing leaves ranks that fall along every dependency (`exists_rank`), and then there is no
cycle.

* `IsCycle`        — a list that comes back to where it began, without a repetition before.
* `Feeds`          — one stage is a direct dependency of another, by their names.
* `Judged`         — what each answer of the construction says about the stages.
* `ofStages_exact` — every answer is given exactly where it applies, and what it names is there.
-/

namespace Conveyor
namespace Graph

/-! ## Cycles -/

/-- A list that comes back to its first element, without a repetition before, along a relation. -/
structure IsCycle {α : Type} (R : α → α → Prop) (l : List α) : Prop where
  two : 2 ≤ l.length
  closed : l.head? = l.getLast?
  simple : l.dropLast.Nodup
  linked : l.IsChain R

section
variable {α β : Type} {R : α → α → Prop} {S : β → β → Prop} {l : List α}

theorem isCycle_append_singleton {a : α} {rest : List α} (hnodup : (a :: rest).Nodup)
    (hchain : (a :: (rest ++ [a])).IsChain R) : IsCycle R (a :: (rest ++ [a])) := by
  refine ⟨?_, ?_, ?_, hchain⟩
  · simp
  · rw [← List.cons_append, List.getLast?_concat]
    rfl
  · rw [← List.cons_append, List.dropLast_concat]
    exact hnodup

theorem IsCycle.map (h : IsCycle R l) {f : α → β}
    (hinj : ∀ a ∈ l, ∀ b ∈ l, f a = f b → a = b) (hstep : ∀ a b, R a b → S (f a) (f b)) :
    IsCycle S (l.map f) := by
  refine ⟨?_, ?_, ?_, ?_⟩
  · rw [List.length_map]
    exact h.two
  · rw [List.head?_map, List.getLast?_map, h.closed]
  · rw [← List.map_dropLast]
    refine h.simple.map_on ?_
    intro a ha b hb heq
    exact hinj a (List.mem_of_mem_dropLast ha) b (List.mem_of_mem_dropLast hb) heq
  · rw [List.isChain_map]
    exact h.linked.imp hstep

/-- Where a cycle begins, the relation leads back to. -/
theorem IsCycle.transGen (h : IsCycle R l) : ∃ a, Relation.TransGen R a a := by
  obtain ⟨htwo, hclosed, _, hlinked⟩ := h
  match l, htwo with
  | a :: b :: rest, _ =>
    obtain ⟨hab, hrest⟩ := List.isChain_cons_cons.1 hlinked
    have hlast : (b :: rest).getLast (List.cons_ne_nil b rest) = a := by
      rw [List.head?_cons, List.getLast?_cons_cons,
        List.getLast?_eq_some_getLast (List.cons_ne_nil b rest)] at hclosed
      exact (Option.some.inj hclosed).symm
    exact ⟨a, .head' hab (List.relationReflTransGen_of_exists_isChain_cons rest hrest hlast)⟩

/-- A path that leads to an element on it again closes a cycle. -/
theorem isCycle_of_path [DecidableEq α] {node next : α} {path : List α}
    (hpath : (node :: path).IsChain fun a b => R b a) (hnodup : (node :: path).Nodup)
    (hnext : next ∈ node :: path) (hstep : R node next) :
    IsCycle R (next :: (next :: (node :: path).takeWhile (· ≠ next)).reverse) := by
  obtain ⟨arc, rest, hsplit, hfresh⟩ := List.eq_append_cons_of_mem hnext
  have hprefix : arc ++ [next] <+: node :: path := by
    exact ⟨rest, by rw [hsplit, List.append_assoc, List.singleton_append]⟩
  have harc : (node :: path).takeWhile (· ≠ next) = arc := by
    rw [hsplit, List.takeWhile_append_of_pos]
    · simp
    · intro a ha
      have hne : a ≠ next := fun heq => hfresh (heq ▸ ha)
      simpa using hne
  -- the cycle, read backwards, is the path with the repeated element put in front
  have hback : (next :: (arc ++ [next])).IsChain fun a b => R b a := by
    cases arc with
    | nil =>
      cases hsplit
      simpa using hstep
    | cons a more =>
      cases hsplit
      exact List.isChain_cons_cons.2 ⟨hstep, hpath.prefix hprefix⟩
  rw [harc, List.reverse_cons]
  refine isCycle_append_singleton ?_ ?_
  · have hmet : (arc ++ [next]).reverse.Nodup :=
      List.nodup_reverse.2 (hnodup.sublist hprefix.sublist)
    simpa using hmet
  · have hreverse : (next :: (arc ++ [next])).reverse = next :: (arc.reverse ++ [next]) := by
      simp
    rw [← hreverse, List.isChain_reverse]
    exact hback

end

/-! ## Cycles that the search reports -/

theorem exists_of_foldlM_error {α β ε : Type} {f : β → α → Except ε β} {e : ε} :
    ∀ {l : List α} {b : β}, l.foldlM f b = .error e → ∃ b' a, a ∈ l ∧ f b' a = .error e := by
  intro l
  induction l with
  | nil =>
    intro b h
    cases h
  | cons a rest ih =>
    intro b h
    rw [List.foldlM_cons] at h
    cases hone : f b a with
    | error e' =>
      rw [hone] at h
      cases h
      exact ⟨b, a, List.mem_cons_self, hone⟩
    | ok b' =>
      rw [hone] at h
      obtain ⟨b'', a', ha', herror⟩ := ih h
      exact ⟨b'', a', List.mem_cons_of_mem a ha', herror⟩

/-- What a visit reports is a cycle, and its stages are stages of the graph. The path that leads
to the visited stage has none of them twice. -/
theorem visit_error {g : Graph} (hg : g.Agrees) : ∀ (fuel : Nat) (path done : List Nat) (node : Nat)
    (cycle : List Nat), (node :: path).IsChain (fun i d => g.Needs i d) → (node :: path).Nodup →
      (∀ i ∈ node :: path, i < g.size) → g.visit fuel path done node = .error cycle →
      IsCycle (fun d i => g.Needs i d) cycle ∧ ∀ i ∈ cycle, i < g.size := by
  intro fuel
  induction fuel with
  | zero =>
    intro path done node cycle _ _ _ h
    cases h
  | succ fuel ih =>
    intro path done node cycle hpath hnodup hlt h
    rw [visit_succ] at h
    split at h
    · rename_i hfold
      cases h
      obtain ⟨done', next, hnext, henter⟩ := exists_of_foldlM_error hfold
      have hneed := hg.mem_successorsOf.1 hnext
      have hsize := (hg.inRange next node hneed).1
      rw [enter] at henter
      split at henter
      · rename_i hmet
        cases henter
        refine ⟨isCycle_of_path hpath hnodup hmet hneed, ?_⟩
        intro i hi
        rcases List.mem_cons.1 hi with rfl | hi
        · exact hsize
        · rcases List.mem_cons.1 (List.mem_reverse.1 hi) with rfl | hi
          · exact hsize
          · exact hlt i ((List.takeWhile_sublist _).subset hi)
      · rename_i hfresh
        split at henter
        · cases henter
        · refine ih (node :: path) done' next cycle ?_ ?_ ?_ henter
          · exact List.isChain_cons_cons.2 ⟨hneed, hpath⟩
          · exact List.nodup_cons.2 ⟨hfresh, hnodup⟩
          · intro i hi
            rcases List.mem_cons.1 hi with rfl | hi
            · exact hsize
            · exact hlt i hi
    · cases h

theorem isCycle_of_cycle? {g : Graph} (hg : g.Agrees) {cycle : List Nat}
    (h : g.cycle? = some cycle) :
    IsCycle (fun d i => g.Needs i d) cycle ∧ ∀ i ∈ cycle, i < g.size := by
  rw [cycle?_eq] at h
  split at h
  · rename_i hfold
    cases h
    obtain ⟨done, node, hnode, henter⟩ := exists_of_foldlM_error hfold
    rw [enter, if_neg List.not_mem_nil] at henter
    split at henter
    · cases henter
    · refine visit_error hg (g.size + 1) [] done node cycle ?_ ?_ ?_ henter
      · exact List.IsChain.singleton node
      · exact List.nodup_singleton node
      · intro i hi
        rw [List.mem_singleton.1 hi]
        exact List.mem_range.1 hnode
  · cases h

/-! ## Dependencies by name -/

/-- The stage of the first name is a direct dependency of the stage of the second. -/
def Feeds (stages : List Stage) (a b : String) : Prop := ∃ s ∈ stages, s.name = b ∧ s.WaitsFor a

def Distinct (stages : List Stage) : Prop := (stages.map (·.name)).Nodup

def Closed (stages : List Stage) : Prop :=
  ∀ s ∈ stages, ∀ n, s.WaitsFor n → n ∈ stages.map (·.name)

/-- A stage can be reached from itself, going from dependencies to dependents. -/
def Cyclic (stages : List Stage) : Prop := ∃ n, Relation.TransGen (Feeds stages) n n

namespace Describes

variable {g : Graph} {stages : List Stage}

theorem closed (h : g.Describes stages) : Closed stages := by
  intro s hs n hn
  obtain ⟨i, hi⟩ := List.mem_iff_getElem?.1 hs
  obtain ⟨d, hd, _⟩ := h.needs_of_waitsFor hi hn
  obtain ⟨t, ht, rfl⟩ := h.index?_eq_some_iff.1 hd
  exact List.mem_map_of_mem (List.mem_of_getElem? ht)

theorem feeds_of_needs (h : g.Describes stages) {i d : Nat} (hn : g.Needs i d) :
    Feeds stages (g.name d) (g.name i) := by
  obtain ⟨s, hs⟩ := h.exists_stage (h.lt_of_needs hn)
  obtain ⟨t, ht⟩ := h.exists_stage (h.lt_of_needed hn)
  rw [h.name_eq hs, h.name_eq ht]
  exact ⟨s, List.mem_of_getElem? hs, rfl, (h.needs_iff_waitsFor hs ht).1 hn⟩

/-- A cycle of stages, as their names. -/
theorem isCycle_names (h : g.Describes stages) {cycle : List Nat}
    (hcycle : IsCycle (fun d i => g.Needs i d) cycle) (hlt : ∀ i ∈ cycle, i < g.size) :
    IsCycle (Feeds stages) (cycle.map g.name) := by
  refine hcycle.map ?_ fun d i hn => h.feeds_of_needs hn
  intro i hi j hj heq
  obtain ⟨s, hs⟩ := h.exists_stage (hlt i hi)
  obtain ⟨t, ht⟩ := h.exists_stage (hlt j hj)
  rw [h.name_eq hs, h.name_eq ht] at heq
  exact h.name_inj hs ht heq

theorem not_cyclic (h : g.Describes stages) {rank : Nat → Nat}
    (hrank : ∀ i d, g.Needs i d → rank d < rank i) : ¬ Cyclic stages := by
  let rankOf := fun n => rank ((g.index? n).getD 0)
  have hstep : ∀ a b, Feeds stages a b → rankOf a < rankOf b := by
    rintro a b ⟨s, hs, rfl, hw⟩
    obtain ⟨i, hi⟩ := List.mem_iff_getElem?.1 hs
    obtain ⟨d, hd, hn⟩ := h.needs_of_waitsFor hi hw
    have hown : g.index? s.name = some i := h.index?_eq_some_iff.2 ⟨s, hi, rfl⟩
    simp only [rankOf, hd, hown, Option.getD_some]
    exact hrank i d hn
  have hpath : ∀ a b, Relation.TransGen (Feeds stages) a b → rankOf a < rankOf b := by
    intro a b hab
    induction hab with
    | single hab => exact hstep _ _ hab
    | tail _ hbc ih => exact Nat.lt_trans ih (hstep _ _ hbc)
  rintro ⟨n, hn⟩
  exact Nat.lt_irrefl _ (hpath n n hn)

end Describes

/-! ## Answers of the construction -/

/-- What an answer of the construction says about the stages. -/
def Judged (stages : List Stage) : Except Error Graph → Prop
  | .error (.duplicateStage n) => 2 ≤ (stages.map (·.name)).count n
  | .error (.unknownDependency s n) =>
    Distinct stages ∧ ∃ stage ∈ stages, stage.name = s ∧ stage.WaitsFor n ∧
      n ∉ stages.map (·.name)
  | .error (.cyclicDependency names) =>
    Distinct stages ∧ Closed stages ∧ IsCycle (Feeds stages) names
  | .ok _ => Distinct stages ∧ Closed stages ∧ ¬ Cyclic stages
  | .error _ => False

theorem judged_ofStages (stages : List Stage) : Judged stages (ofStages stages) := by
  simp only [ofStages]
  split
  · rename_i e hregister
    obtain ⟨n, rfl, htwo⟩ := register_error .empty hregister
    exact htwo
  · rename_i places hregister
    have hplaces : Locates places (stages.map (·.name)) := register_ok .empty hregister
    split
    · rename_i e hlink
      obtain ⟨s, hs, n, hw, hnone, rfl⟩ := linkAll_error hlink
      exact ⟨hplaces.nodup, s, hs, rfl, hw, hplaces.get?_eq_none_iff.1 hnone⟩
    · rename_i links hlink
      have hg := describes_of_linkAll hplaces hlink
      split
      · rename_i cycle hcycle
        obtain ⟨hloop, hlt⟩ := isCycle_of_cycle? hg.agrees hcycle
        exact ⟨hplaces.nodup, hg.closed, hg.isCycle_names hloop hlt⟩
      · rename_i hnone
        obtain ⟨rank, hrank⟩ := exists_rank hg.agrees hnone
        exact ⟨hplaces.nodup, hg.closed, hg.not_cyclic hrank⟩

/-- Stages that construction refuses have no good graph. -/
theorem Judged.refused {stages : List Stage} {e : Error} (h : Judged stages (.error e)) :
    ¬ (Distinct stages ∧ Closed stages ∧ ¬ Cyclic stages) := by
  rintro ⟨hdistinct, hclosed, hacyclic⟩
  cases e with
  | duplicateStage n =>
    have htwo : 2 ≤ (stages.map (·.name)).count n := h
    have hone := List.nodup_iff_count_le_one.1 hdistinct n
    omega
  | unknownDependency s n =>
    obtain ⟨_, stage, hstage, _, hw, hnone⟩ := h
    exact hnone (hclosed stage hstage n hw)
  | cyclicDependency names =>
    obtain ⟨_, _, hcycle⟩ := h
    exact hacyclic hcycle.transGen
  | _ => exact h

theorem ofStages_isOk_iff {stages : List Stage} : (∃ g, ofStages stages = .ok g) ↔
    Distinct stages ∧ Closed stages ∧ ¬ Cyclic stages := by
  have hjudged := judged_ofStages stages
  constructor
  · rintro ⟨g, hg⟩
    rw [hg] at hjudged
    exact hjudged
  · intro hgood
    cases hresult : ofStages stages with
    | ok g => exact ⟨g, rfl⟩
    | error e =>
      rw [hresult] at hjudged
      exact absurd hgood hjudged.refused

/-- Construction refuses stages that share a name; if none do, stages that wait for a name that is
none; if none do, stages that wait for themselves in the end; and nothing else. What it names in
its refusal is there: a name of two stages, a stage with a name that it waits for in vain, or a
simple cycle in which each stage is a direct dependency of the next. -/
theorem ofStages_exact (stages : List Stage) :
    ((∃ n, ofStages stages = .error (.duplicateStage n)) ↔ ¬ Distinct stages) ∧
    ((∃ s n, ofStages stages = .error (.unknownDependency s n)) ↔
      Distinct stages ∧ ¬ Closed stages) ∧
    ((∃ names, ofStages stages = .error (.cyclicDependency names)) ↔
      Distinct stages ∧ Closed stages ∧ Cyclic stages) ∧
    ((∃ g, ofStages stages = .ok g) ↔ Distinct stages ∧ Closed stages ∧ ¬ Cyclic stages) ∧
    (∀ n, ofStages stages = .error (.duplicateStage n) → 2 ≤ (stages.map (·.name)).count n) ∧
    (∀ s n, ofStages stages = .error (.unknownDependency s n) →
      ∃ stage ∈ stages, stage.name = s ∧ stage.WaitsFor n ∧ n ∉ stages.map (·.name)) ∧
    ∀ names, ofStages stages = .error (.cyclicDependency names) →
      IsCycle (Feeds stages) names := by
  have hjudged := judged_ofStages stages
  cases hresult : ofStages stages with
  | ok g =>
    rw [hresult] at hjudged
    obtain ⟨hdistinct, hclosed, hacyclic⟩ := hjudged
    simp [hdistinct, hclosed, hacyclic]
  | error e =>
    rw [hresult] at hjudged
    cases e with
    | duplicateStage n =>
      have htwo : 2 ≤ (stages.map (·.name)).count n := hjudged
      have hshared : ¬ Distinct stages := by
        intro hdistinct
        have hone := List.nodup_iff_count_le_one.1 hdistinct n
        omega
      simp [hshared, htwo]
    | unknownDependency s n =>
      obtain ⟨hdistinct, stage, hstage, hname, hw, hnone⟩ := hjudged
      have hopen : ¬ Closed stages := fun hclosed => hnone (hclosed stage hstage n hw)
      have hfound : ∃ stage ∈ stages, stage.name = s ∧ stage.WaitsFor n ∧
        n ∉ stages.map (·.name) := ⟨stage, hstage, hname, hw, hnone⟩
      simpa [hdistinct, hopen] using hfound
    | cyclicDependency names =>
      obtain ⟨hdistinct, hclosed, hcycle⟩ := hjudged
      have hcyclic : Cyclic stages := hcycle.transGen
      simp [hdistinct, hclosed, hcyclic, hcycle]
    | _ => exact absurd hjudged id

end Graph
end Conveyor
