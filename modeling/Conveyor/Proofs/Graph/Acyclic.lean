import Conveyor.Proofs.Graph.Construction
import Mathlib.Data.List.Perm.Subperm

/-!
# Conveyor.Proofs.Graph.Acyclic

A search that closes no cycle has put the stages in an order.

The search collects the stages behind which nothing is wrong, the newest first. A stage joins
them only after all its dependents have (`DependentsFollow`), so the collection, read from its
newest stage on, names every dependency before its dependents. The position in it is a rank that
falls along every dependency (`exists_rank`), and a relation with such a rank has no cycle.

The path of the search has no stage twice, so it is never longer than the graph and the fuel of
`visit` never runs out (`visit_ok`).
-/

namespace Conveyor
namespace Graph

/-- Every stage of the list stands before all its dependents. -/
def DependentsFollow (g : Graph) : List Nat → Prop
  | [] => True
  | i :: rest => (∀ j ∈ g.successorsOf i, j ∈ rest) ∧ g.DependentsFollow rest

/-- What the search knows about the stages it is done with, on its way along a path. -/
structure Explored (g : Graph) (path done : List Nat) : Prop where
  nodup : done.Nodup
  /-- Nothing on the path is done. -/
  apart : ∀ i ∈ done, i ∉ path
  follow : g.DependentsFollow done

theorem length_le_size {g : Graph} {l : List Nat} (hd : l.Nodup) (hl : ∀ i ∈ l, i < g.size) :
    l.length ≤ g.size := by
  have hsub : l ⊆ List.range g.size := fun i hi => List.mem_range.2 (hl i hi)
  simpa using (hd.subperm hsub).length_le

/-- How the search goes on from a stage to one of its dependents. -/
def enter (g : Graph) (fuel : Nat) (path done : List Nat) (next : Nat) :
    Except (List Nat) (List Nat) :=
  if next ∈ path then .error (next :: (next :: path.takeWhile (· ≠ next)).reverse)
  else if next ∈ done then .ok done
  else g.visit fuel path done next

theorem visit_succ (g : Graph) (fuel : Nat) (path done : List Nat) (node : Nat) :
    g.visit (fuel + 1) path done node =
      match (g.successorsOf node).foldlM (g.enter fuel (node :: path)) done with
      | .error cycle => .error cycle
      | .ok done => .ok (node :: done) := rfl

/-- The search through a list of dependents keeps what is known and is done with all of them,
if each single visit does so. -/
theorem enterAll_ok (g : Graph) (fuel : Nat) (path : List Nat)
    (visits : ∀ done next done', next ∉ path → next ∉ done → g.Explored path done →
      next < g.size → g.visit fuel path done next = .ok done' →
      g.Explored path done' ∧ next ∈ done' ∧ ∀ i ∈ done, i ∈ done') :
    ∀ (nexts : List Nat) (done done' : List Nat), (∀ i ∈ nexts, i < g.size) →
      g.Explored path done → nexts.foldlM (g.enter fuel path) done = .ok done' →
      g.Explored path done' ∧ (∀ i ∈ nexts, i ∈ done') ∧ ∀ i ∈ done, i ∈ done' := by
  intro nexts
  induction nexts with
  | nil =>
    intro done done' _ hex h
    cases h
    exact ⟨hex, by simp, fun i hi => hi⟩
  | cons next rest ih =>
    intro done done' hlt hex h
    rw [List.foldlM_cons] at h
    cases hstep : g.enter fuel path done next with
    | error cycle => rw [hstep] at h; cases h
    | ok mid =>
      rw [hstep] at h
      have hmid : g.Explored path mid ∧ next ∈ mid ∧ ∀ i ∈ done, i ∈ mid := by
        rw [enter] at hstep
        split at hstep
        · cases hstep
        · rename_i hpath
          split at hstep
          · rename_i hdone
            cases hstep
            exact ⟨hex, hdone, fun i hi => hi⟩
          · rename_i hdone
            exact visits done next mid hpath hdone hex (hlt next List.mem_cons_self) hstep
      obtain ⟨hex', hnext, hkept⟩ := hmid
      obtain ⟨hex'', hall, hkept'⟩ :=
        ih mid done' (fun i hi => hlt i (List.mem_cons_of_mem _ hi)) hex' h
      refine ⟨hex'', ?_, fun i hi => hkept' i (hkept i hi)⟩
      intro i hi
      rcases List.mem_cons.1 hi with rfl | hi
      · exact hkept' i hnext
      · exact hall i hi

/-- A visit that closes no cycle is done with its stage, and with all that was done before. -/
theorem visit_ok {g : Graph} (hg : g.Agrees) : ∀ (fuel : Nat) (path done : List Nat) (node : Nat)
    (done' : List Nat), g.size ≤ fuel + path.length → (node :: path).Nodup →
      (∀ i ∈ node :: path, i < g.size) → node ∉ done → g.Explored path done →
      g.visit fuel path done node = .ok done' →
      g.Explored path done' ∧ node ∈ done' ∧ ∀ i ∈ done, i ∈ done' := by
  intro fuel
  induction fuel with
  | zero =>
    intro path done node done' hfuel hnd hlt
    have := length_le_size hnd hlt
    simp only [List.length_cons] at this
    omega
  | succ fuel ih =>
    intro path done node done' hfuel hnd hlt hnode hex h
    rw [visit_succ] at h
    split at h
    · cases h
    · rename_i inner hinner
      cases h
      have hex' : g.Explored (node :: path) done := by
        refine ⟨hex.nodup, ?_, hex.follow⟩
        intro i hi hp
        rcases List.mem_cons.1 hp with rfl | hp
        · exact hnode hi
        · exact hex.apart i hi hp
      obtain ⟨hin, hall, hkept⟩ := enterAll_ok g fuel (node :: path)
        (by
          intro done next done' hp hd hex hn h
          refine ih (node :: path) done next done' ?_ ?_ ?_ hd hex h
          · simp only [List.length_cons]; omega
          · exact List.nodup_cons.2 ⟨hp, hnd⟩
          · intro i hi
            rcases List.mem_cons.1 hi with rfl | hi
            · exact hn
            · exact hlt i hi)
        (g.successorsOf node) done inner (fun i hi => hg.lt_of_mem_successorsOf hi) hex' hinner
      refine ⟨⟨?_, ?_, hall, hin.follow⟩, List.mem_cons_self,
        fun i hi => List.mem_cons_of_mem _ (hkept i hi)⟩
      · exact List.nodup_cons.2 ⟨fun hi => hin.apart node hi List.mem_cons_self, hin.nodup⟩
      · intro i hi hp
        rcases List.mem_cons.1 hi with rfl | hi
        · exact (List.nodup_cons.1 hnd).1 hp
        · exact hin.apart i hi (List.mem_cons_of_mem _ hp)

theorem cycle?_eq (g : Graph) :
    g.cycle? = match (List.range g.size).foldlM (g.enter (g.size + 1) []) [] with
      | .error cycle => some cycle
      | .ok _ => none := by
  have hstep : (fun done node => if node ∈ done then Except.ok done
      else g.visit (g.size + 1) [] done node) = g.enter (g.size + 1) [] := by
    funext done node
    simp [enter]
  exact congrArg (fun step => match (List.range g.size).foldlM step [] with
    | .error cycle => some cycle
    | .ok _ => none) hstep

theorem explored_of_cycle? {g : Graph} (hg : g.Agrees) (h : g.cycle? = none) :
    ∃ done, g.Explored [] done ∧ ∀ i, i < g.size → i ∈ done := by
  rw [cycle?_eq] at h
  split at h
  · cases h
  · rename_i done hdone
    obtain ⟨hex, hall, _⟩ := enterAll_ok g (g.size + 1) []
      (by
        intro done next done' hp hd hex hn h
        exact visit_ok hg (g.size + 1) [] done next done' (by simp) (by simp) (by simpa using hn)
          hd hex h)
      (List.range g.size) [] done (fun i hi => List.mem_range.1 hi)
      ⟨List.nodup_nil, by simp, trivial⟩ hdone
    exact ⟨done, hex, fun i hi => hall i (List.mem_range.2 hi)⟩

theorem mem_of_follow {g : Graph} {d i : Nat} (hi : i ∈ g.successorsOf d) :
    ∀ (l : List Nat), g.DependentsFollow l → d ∈ l → i ∈ l := by
  intro l
  induction l with
  | nil => intro _ hd; cases hd
  | cons j rest ih =>
    intro hf hd
    rcases List.mem_cons.1 hd with rfl | hd
    · exact List.mem_cons_of_mem _ (hf.1 i hi)
    · exact List.mem_cons_of_mem _ (ih hf.2 hd)

theorem idxOf_lt_of_follow {g : Graph} {d i : Nat} (hi : i ∈ g.successorsOf d) :
    ∀ (l : List Nat), g.DependentsFollow l → l.Nodup → d ∈ l → l.idxOf d < l.idxOf i := by
  intro l
  induction l with
  | nil => intro _ _ hd; cases hd
  | cons j rest ih =>
    intro hf hn hd
    obtain ⟨hj, hf⟩ := hf
    obtain ⟨hjr, hn⟩ := List.nodup_cons.1 hn
    by_cases hjd : j = d
    · subst hjd
      have hne : j ≠ i := by
        rintro rfl
        exact hjr (hj _ hi)
      rw [List.idxOf_cons_self, List.idxOf_cons_ne _ hne]
      omega
    · have hdr : d ∈ rest := (List.mem_cons.1 hd).resolve_left (Ne.symm hjd)
      have hne : j ≠ i := by
        rintro rfl
        exact hjr (mem_of_follow hi rest hf hdr)
      rw [List.idxOf_cons_ne _ hjd, List.idxOf_cons_ne _ hne]
      exact Nat.succ_lt_succ (ih hf hn hdr)

/-- The stages of a graph without a cycle have ranks, and every stage has a higher one than all
that it needs. -/
theorem exists_rank {g : Graph} (hg : g.Agrees) (hc : g.cycle? = none) :
    ∃ rank : Nat → Nat, ∀ i d, g.Needs i d → rank d < rank i := by
  obtain ⟨done, hex, hall⟩ := explored_of_cycle? hg hc
  refine ⟨fun i => done.idxOf i, ?_⟩
  intro i d hn
  have hi : i ∈ g.successorsOf d := hg.mem_successorsOf.2 hn
  exact idxOf_lt_of_follow hi done hex.follow hex.nodup (hall d (hg.inRange i d hn).2)

end Graph
end Conveyor
