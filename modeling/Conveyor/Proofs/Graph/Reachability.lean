import Conveyor.Graph.Basic
import Mathlib.Data.List.Basic
import Mathlib.Logic.Relation

/-!
# Conveyor.Proofs.Graph.Reachability

What the search along the edges of a graph finds.

Whatever the search meets is reached from what it starts with (`collect_sound`). The other way
round, its fuel lasts: a visit is the first one, or an edge asks for it that leads away from a stage
met for the first time. So the edges that lead away from the stages not met yet pay for all visits
to come (`collect_complete`).
-/

namespace Conveyor
namespace Graph

variable {g : Graph}

/-- There is an edge from a dependency to its dependent. -/
def Edge (g : Graph) (d i : Nat) : Prop := (d, i) ∈ g.edges

theorem mem_targetsOf {d i : Nat} : i ∈ g.targetsOf d ↔ g.Edge d i := by
  simp [targetsOf, Edge]

/-- What a search starts with may have a property that every edge passes on. Then all that it meets
has it. -/
theorem collect_sound {P : Nat → Prop} (hstep : ∀ d i, P d → g.Edge d i → P i)
    (fuel : Nat) (todo seen : List Nat) :
    (∀ i ∈ todo, P i) → (∀ i ∈ seen, P i) → ∀ i ∈ g.collect fuel todo seen, P i := by
  fun_induction collect g fuel todo seen with
  | case1 | case2 => exact fun _ hseen => hseen
  | case3 fuel i todo seen hmet ih =>
    intro htodo hseen
    exact ih (fun j hj => htodo j (List.mem_cons_of_mem i hj)) hseen
  | case4 fuel i todo seen hnew ih =>
    intro htodo hseen
    obtain ⟨hi, htodo⟩ := List.forall_mem_cons.1 htodo
    refine ih ?_ (List.forall_mem_cons.2 ⟨hi, hseen⟩)
    intro j hj
    rcases List.mem_append.1 hj with hedge | hj
    · exact hstep i j hi (mem_targetsOf.1 hedge)
    · exact htodo j hj

/-- The edges that lead away from stages that were not met. -/
def openEdges (g : Graph) (seen : List Nat) : List (Nat × Nat) := g.edges.filter (·.1 ∉ seen)

theorem length_openEdges {i : Nat} {seen : List Nat} (hi : i ∉ seen) :
    (g.targetsOf i).length + (g.openEdges (i :: seen)).length = (g.openEdges seen).length := by
  have htargets : (g.openEdges seen).filter (·.1 = i) = g.edges.filter (·.1 = i) := by
    rw [openEdges, List.filter_filter]
    refine List.filter_congr fun e _ => ?_
    by_cases he : e.1 = i
    · simp [he, hi]
    · simp [he]
  have hothers :
      (g.openEdges seen).filter (fun e => !decide (e.1 = i)) = g.openEdges (i :: seen) := by
    rw [openEdges, openEdges, List.filter_filter]
    refine List.filter_congr fun e _ => ?_
    simp
  rw [targetsOf, List.length_map, ← htargets, ← hothers]
  exact (List.length_eq_length_filter_add _).symm

/-- What a search is to meet, and what it has met when it ends. -/
theorem collect_complete (fuel : Nat) (todo seen : List Nat) :
    (∀ d ∈ seen, ∀ i, g.Edge d i → i ∈ seen ∨ i ∈ todo) →
      todo.length + (g.openEdges seen).length ≤ fuel →
      (∀ i, i ∈ seen ∨ i ∈ todo → i ∈ g.collect fuel todo seen) ∧
      ∀ d ∈ g.collect fuel todo seen, ∀ i, g.Edge d i → i ∈ g.collect fuel todo seen := by
  fun_induction collect g fuel todo seen with
  | case1 todo seen =>
    intro hclosed hfuel
    have hnone : todo = [] := List.length_eq_zero_iff.1 (by omega)
    subst hnone
    simpa using hclosed
  | case2 fuel seen =>
    intro hclosed _
    simpa using hclosed
  | case3 fuel i todo seen hmet ih =>
    intro hclosed hfuel
    -- the stage was met before, so it need not be on the list
    have hlist : ∀ j, j ∈ seen ∨ j ∈ i :: todo → j ∈ seen ∨ j ∈ todo := by
      rintro j (hj | hj)
      · exact .inl hj
      · rcases List.mem_cons.1 hj with rfl | hj
        · exact .inl hmet
        · exact .inr hj
    obtain ⟨hall, hend⟩ := ih (fun d hd j hedge => hlist j (hclosed d hd j hedge))
      (by simp only [List.length_cons] at hfuel; omega)
    exact ⟨fun j hj => hall j (hlist j hj), hend⟩
  | case4 fuel i todo seen hnew ih =>
    intro hclosed hfuel
    have hlist : ∀ j, j ∈ seen ∨ j ∈ i :: todo →
        j ∈ i :: seen ∨ j ∈ g.targetsOf i ++ todo := by
      rintro j (hj | hj)
      · exact .inl (List.mem_cons_of_mem i hj)
      · rcases List.mem_cons.1 hj with rfl | hj
        · exact .inl List.mem_cons_self
        · exact .inr (List.mem_append_right _ hj)
    have hpaid := length_openEdges (g := g) hnew
    obtain ⟨hall, hend⟩ := ih
      (by
        intro d hd j hedge
        rcases List.mem_cons.1 hd with rfl | hd
        · exact .inr (List.mem_append_left _ (mem_targetsOf.2 hedge))
        · exact hlist j (hclosed d hd j hedge))
      (by simp only [List.length_append, List.length_cons] at hfuel ⊢; omega)
    exact ⟨fun j hj => hall j (hlist j hj), hend⟩

/-- The search finds what can be reached along edges. -/
theorem mem_reachedFrom {d i : Nat} :
    i ∈ g.reachedFrom d ↔ Relation.ReflTransGen g.Edge d i := by
  constructor
  · have hstep : ∀ j k, Relation.ReflTransGen g.Edge d j → g.Edge j k →
        Relation.ReflTransGen g.Edge d k := fun _ _ => .tail
    exact collect_sound hstep _ _ _ (by simpa using .refl) (by simp) i
  · intro hpath
    have hpaid : [d].length + (g.openEdges []).length ≤ g.edges.length + 1 := by
      rw [List.length_singleton, Nat.add_comm]
      exact Nat.succ_le_succ (List.length_filter_le _ _)
    obtain ⟨hfirst, hclosed⟩ := collect_complete _ [d] [] (by simp) hpaid
    induction hpath with
    | refl => exact hfirst d (.inr (List.mem_singleton_self d))
    | tail _ hedge ih => exact hclosed _ ih _ hedge

end Graph
end Conveyor
