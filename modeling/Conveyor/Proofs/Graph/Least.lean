import Conveyor.Proofs.Graph.Order

/-!
# Conveyor.Proofs.Graph.Least

Of all orders in which every stage comes after its dependencies, the order of a graph is the one
that puts stages declared early as early as it can.

At every point of the sweep the ready stages are all that any order could put next, and the sweep
takes the first of them. So where another order differs from it for the first time, the other one
has a stage that was declared later (`sweepFrom?_least`).

* `ValidOrder`  — every stage once, each after the stages that it waits for.
* `order_least` — the order of a graph is the least of them, compared stage by stage.
-/

namespace Conveyor
namespace Graph

variable {g : Graph} {stages : List Stage}

/-! ## Orders -/

/-- Every stage of the list is there once, and after each of its direct dependencies. -/
structure ValidOrder (stages : List Stage) (l : List Nat) : Prop where
  perm : l.Perm (List.range stages.length)
  after : ∀ i d s t, stages[i]? = some s → stages[d]? = some t → s.WaitsFor t.name →
    l.idxOf d < l.idxOf i

/-- To come after one's dependencies is to have a later position than each of them. -/
theorem dependenciesFirst_iff {l : List Nat} : ∀ {placed : List Nat}, l.Nodup →
    (g.DependenciesFirst placed l ↔
      ∀ i ∈ l, ∀ d ∈ g.predecessorsOf i, d ∈ placed ∨ l.idxOf d < l.idxOf i) := by
  induction l with
  | nil =>
    intro placed _
    simp [DependenciesFirst]
  | cons i rest ih =>
    intro placed hnodup
    obtain ⟨hi, hrest⟩ := List.nodup_cons.1 hnodup
    -- the positions of the stages after the first one
    have hlater : ∀ j ∈ rest, ∀ d, d ≠ i →
        ((i :: rest).idxOf d < (i :: rest).idxOf j ↔ rest.idxOf d < rest.idxOf j) := by
      intro j hj d hd
      have hji : i ≠ j := fun heq => hi (heq ▸ hj)
      rw [List.idxOf_cons_ne rest (Ne.symm hd), List.idxOf_cons_ne rest hji]
      exact Nat.succ_lt_succ_iff
    have hfirst : ∀ j ∈ rest, (i :: rest).idxOf i < (i :: rest).idxOf j := by
      intro j hj
      have hji : i ≠ j := fun heq => hi (heq ▸ hj)
      rw [List.idxOf_cons_self, List.idxOf_cons_ne rest hji]
      exact Nat.succ_pos _
    rw [DependenciesFirst, ih hrest]
    constructor
    · rintro ⟨hplaced, hall⟩ j hj d hd
      rcases List.mem_cons.1 hj with rfl | hj
      · exact .inl (hplaced d hd)
      · by_cases hdi : d = i
        · exact .inr (hdi ▸ hfirst j hj)
        · rcases hall j hj d hd with hp | hlt
          · exact .inl ((List.mem_cons.1 hp).resolve_left hdi)
          · exact .inr ((hlater j hj d hdi).2 hlt)
    · intro hall
      constructor
      · intro d hd
        refine (hall i List.mem_cons_self d hd).resolve_right ?_
        rw [List.idxOf_cons_self]
        omega
      · intro j hj d hd
        by_cases hdi : d = i
        · exact .inl (hdi ▸ List.mem_cons_self)
        · rcases hall j (List.mem_cons_of_mem i hj) d hd with hp | hlt
          · exact .inl (List.mem_cons_of_mem i hp)
          · exact .inr ((hlater j hj d hdi).1 hlt)

theorem Describes.dependenciesFirst_of_validOrder (h : g.Describes stages) {l : List Nat}
    (hl : ValidOrder stages l) : l.Nodup ∧ (∀ i, i ∈ l ↔ i < g.size) ∧
      g.DependenciesFirst [] l := by
  have hnodup : l.Nodup := hl.perm.nodup_iff.2 List.nodup_range
  have hmem : ∀ i, i ∈ l ↔ i < g.size := by
    intro i
    rw [hl.perm.mem_iff, List.mem_range, h.size_eq]
  refine ⟨hnodup, hmem, (dependenciesFirst_iff hnodup).2 ?_⟩
  intro i hi d hd
  have hneed := mem_predecessorsOf.1 hd
  obtain ⟨s, hs⟩ := h.exists_stage (h.lt_of_needs hneed)
  obtain ⟨t, ht⟩ := h.exists_stage (h.lt_of_needed hneed)
  exact .inr (hl.after i d s t hs ht ((h.needs_iff_waitsFor hs ht).1 hneed))

theorem Describes.idxOf_lt_of_needs (h : g.Describes stages) (ho : g.Ordered) {i d : Nat}
    (hneed : g.Needs i d) : g.order.idxOf d < g.order.idxOf i := by
  have hi : i ∈ g.order := (ho.mem_iff i).2 (h.lt_of_needs hneed)
  have hd : d ∈ g.predecessorsOf i := mem_predecessorsOf.2 hneed
  rcases (dependenciesFirst_iff ho.nodup).1 ho.first i hi d hd with hnone | hlt
  · cases hnone
  · exact hlt

theorem Describes.validOrder_of_ordered (h : g.Describes stages) (ho : g.Ordered) :
    ValidOrder stages g.order := by
  refine ⟨?_, ?_⟩
  · refine (List.perm_ext_iff_of_nodup ho.nodup List.nodup_range).2 ?_
    intro i
    rw [ho.mem_iff, List.mem_range, h.size_eq]
  · intro i d s t hs ht hw
    exact h.idxOf_lt_of_needs ho ((h.needs_iff_waitsFor hs ht).2 hw)

/-! ## The least order -/

/-- From any state of the sweep, what it adds is the least of the orders of the stages that are
left. -/
theorem sweepFrom?_least (hg : g.Agrees) :
    ∀ (fuel : Nat) (placed : List Nat) (s : Sweep) (l l' : List Nat), g.Swept placed s →
      g.sweepFrom? fuel s = some l → l'.length = l.length → l'.Nodup →
      (∀ j ∈ l', j < g.size ∧ j ∉ placed) → g.DependenciesFirst placed l' →
      l = l' ∨ List.Lex (· < ·) l l' := by
  intro fuel
  induction fuel with
  | zero =>
    intro placed s l l' _ h hlen _ _ _
    cases h
    exact .inl (List.length_eq_zero_iff.1 hlen).symm
  | succ fuel ih =>
    intro placed s l l' hswept h hlen hnodup hleft hfirst
    rw [sweepFrom?] at h
    split at h
    · cases h
      exact .inl (List.length_eq_zero_iff.1 hlen).symm
    · rename_i i ready hready
      obtain ⟨s', hs', hswept'⟩ := hswept.place hg hready
      rw [hs'] at h
      obtain ⟨more, hmore, rfl⟩ := Option.map_eq_some_iff.1 h
      cases l' with
      | nil => cases hlen
      | cons j rest =>
        obtain ⟨hj, hrest⟩ := List.nodup_cons.1 hnodup
        obtain ⟨hjsize, hjplaced⟩ := hleft j List.mem_cons_self
        -- the other order can only begin with a stage that is ready, too
        have hjready : j ∈ i :: ready := by
          rw [← hready]
          exact (hswept.ready j).2 ⟨hjsize, hjplaced, openDependencies_eq_nil_iff.2 hfirst.1⟩
        rcases List.mem_cons.1 hjready with rfl | hlater
        · have hleft' : ∀ k ∈ rest, k < g.size ∧ k ∉ j :: placed := by
            intro k hk
            obtain ⟨hksize, hkplaced⟩ := hleft k (List.mem_cons_of_mem j hk)
            refine ⟨hksize, fun hkj => ?_⟩
            rcases List.mem_cons.1 hkj with rfl | hkj
            · exact hj hk
            · exact hkplaced hkj
          rcases ih (j :: placed) s' more rest hswept' hmore (Nat.succ.inj hlen) hrest hleft'
            hfirst.2 with rfl | hless
          · exact .inl rfl
          · exact .inr (.cons hless)
        · have hascending := hswept.ascending
          rw [hready] at hascending
          exact .inr (.rel ((List.pairwise_cons.1 hascending).1 j hlater))

/-- The order of a graph is found without a count that falls below zero. It holds every stage
once, and each after its direct dependencies; and of all orders that do, it is the least, compared
by the places of the stages in the declaration. -/
theorem order_least (h : ofStages stages = .ok g) :
    g.sweep? = some g.order ∧ ValidOrder stages g.order ∧
      ∀ l, ValidOrder stages l → g.order = l ∨ List.Lex (· < ·) g.order l := by
  obtain ⟨hg, hcycle⟩ := describes_of_ofStages h
  obtain ⟨rank, hrank⟩ := exists_rank hg.agrees hcycle
  have hordered := ordered_of_rank hg.agrees hrank
  have hvalid := hg.validOrder_of_ordered hordered
  have hsweep : g.sweep? = some g.order := sweep?_eq_order hg.agrees hrank
  refine ⟨hsweep, hvalid, ?_⟩
  intro l hl
  obtain ⟨hnodup, hmem, hfirst⟩ := hg.dependenciesFirst_of_validOrder hl
  have hlen : l.length = g.order.length := by
    rw [hl.perm.length_eq, hvalid.perm.length_eq]
  refine sweepFrom?_least hg.agrees g.size [] g.sweepStart g.order l g.swept_start hsweep hlen
    hnodup ?_ hfirst
  intro j hj
  exact ⟨(hmem j).1 hj, List.not_mem_nil⟩

/-- A chain of three stages that is declared against its direction, and a stage by itself. -/
def backwardStages : List Stage :=
  [ { name := "deploy", run := .script "push", dependsOn := ["test"] },
    { name := "lint", run := .script "lint" },
    { name := "test", run := .script "test", dependsOn := ["build"] },
    { name := "build", run := .script "make" } ]

/-- The stage by itself comes first, and the chain is turned round. -/
theorem order_least_backward : ∃ g, ofStages backwardStages = .ok g ∧ g.order = [1, 3, 2, 0] ∧
    ValidOrder backwardStages [1, 3, 2, 0] ∧
    ∀ l, ValidOrder backwardStages l →
      [1, 3, 2, 0] = l ∨ List.Lex (· < ·) [1, 3, 2, 0] l := by
  let g : Graph :=
    { names := ["deploy", "lint", "test", "build"]
      places := .ofList [("deploy", 0), ("lint", 1), ("test", 2), ("build", 3)]
      edges := [(2, 0), (3, 2)]
      predecessors := [[2], [], [3], []]
      successors := [[], [], [0], [2]] }
  have hg : ofStages backwardStages = .ok g := rfl
  have horder : g.order = [1, 3, 2, 0] := by decide +kernel
  obtain ⟨_, hvalid, hleast⟩ := order_least hg
  rw [horder] at hvalid hleast
  exact ⟨g, hg, horder, hvalid, hleast⟩

end Graph
end Conveyor
