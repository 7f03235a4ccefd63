import Conveyor.Graph.Links

/-!
# Conveyor.Proofs.Graph.Links

What the edges and the two tables of the links hold.

A link is put into each of them in its own way: the edges leave out what they have, the row of the
dependent takes the dependency, and the row of the dependency takes the dependent. `Links.Holds`
says that all three have the pairs of one relation. A further link adds its pair to this relation
(`Holds.connect`), whatever was linked before. Tidying sorts the rows and drops what is repeated,
and changes no membership (`Holds.tidy`).
-/

namespace Conveyor

/-! ## Ascending lists -/

namespace Graph

theorem mem_insertAscending {i j : Nat} {l : List Nat} :
    j ∈ insertAscending i l ↔ j = i ∨ j ∈ l := by
  induction l with
  | nil => simp [insertAscending]
  | cons k rest ih =>
    rw [insertAscending]
    split
    · rw [List.mem_cons]
    · rw [List.mem_cons, ih, List.mem_cons, or_left_comm]

/-- An insertion keeps any strict or non-strict order of the list. -/
theorem pairwise_insertAscending {R : Nat → Nat → Prop} (hR : ∀ a b, R a b → a ≤ b) {i : Nat}
    {l : List Nat} (hl : l.Pairwise R) (hi : ∀ j ∈ l, (j < i → R j i) ∧ (i ≤ j → R i j)) :
    (insertAscending i l).Pairwise R := by
  induction l with
  | nil => exact List.pairwise_singleton R i
  | cons k rest ih =>
    obtain ⟨hk, hrest⟩ := List.pairwise_cons.1 hl
    obtain ⟨hik, hirest⟩ := List.forall_mem_cons.1 hi
    rw [insertAscending]
    split
    · rename_i hle
      refine List.pairwise_cons.2 ⟨List.forall_mem_cons.2 ⟨hik.2 hle, ?_⟩, hl⟩
      intro j hj
      exact (hirest j hj).2 (Nat.le_trans hle (hR k j (hk j hj)))
    · rename_i hlt
      refine List.pairwise_cons.2 ⟨?_, ih hrest hirest⟩
      intro j hj
      rcases mem_insertAscending.1 hj with rfl | hj
      · exact hik.1 (Nat.lt_of_not_le hlt)
      · exact hk j hj

theorem mem_sortAscending {j : Nat} {l : List Nat} : j ∈ sortAscending l ↔ j ∈ l := by
  induction l with
  | nil => exact Iff.rfl
  | cons i rest ih =>
    have hinsert : sortAscending (i :: rest) = insertAscending i (sortAscending rest) := rfl
    rw [hinsert, mem_insertAscending, ih, List.mem_cons]

theorem pairwise_sortAscending (l : List Nat) : (sortAscending l).Pairwise (· ≤ ·) := by
  induction l with
  | nil => exact List.Pairwise.nil
  | cons i rest ih =>
    exact pairwise_insertAscending (fun _ _ h => h) ih fun _ _ => ⟨Nat.le_of_lt, id⟩

theorem mem_dropRepeats {j : Nat} {l : List Nat} : j ∈ dropRepeats l ↔ j ∈ l := by
  fun_induction dropRepeats l with
  | case1 => exact Iff.rfl
  | case2 => exact Iff.rfl
  | case3 i rest ih => rw [ih, List.mem_cons, List.mem_cons, List.mem_cons, or_self_left]
  | case4 i k rest _ ih =>
    have hcons : j ∈ i :: k :: rest ↔ j = i ∨ j ∈ k :: rest := List.mem_cons
    rw [List.mem_cons, ih, hcons]

theorem pairwise_dropRepeats {l : List Nat} (h : l.Pairwise (· ≤ ·)) :
    (dropRepeats l).Pairwise (· < ·) := by
  fun_induction dropRepeats l with
  | case1 => exact List.Pairwise.nil
  | case2 i => exact List.pairwise_singleton _ i
  | case3 i rest ih => exact ih (List.pairwise_cons.1 h).2
  | case4 i k rest hne ih =>
    obtain ⟨hi, hrest⟩ := List.pairwise_cons.1 h
    refine List.pairwise_cons.2 ⟨?_, ih hrest⟩
    intro j hj
    have hik : i < k := Nat.lt_of_le_of_ne (hi k List.mem_cons_self) hne
    rcases List.mem_cons.1 (mem_dropRepeats.1 hj) with rfl | hj
    · exact hik
    · exact Nat.lt_of_lt_of_le hik ((List.pairwise_cons.1 hrest).1 j hj)

end Graph

/-! ## Rows -/

namespace Links

theorem mem_row_modify {table : List (List Nat)} {k a i j : Nat} :
    j ∈ row (table.modify k (· ++ [a])) i ↔
      j ∈ row table i ∨ k < table.length ∧ i = k ∧ j = a := by
  rw [row, row, List.getD_eq_getElem?_getD, List.getD_eq_getElem?_getD, List.getElem?_modify]
  by_cases hi : i = k
  · subst hi
    by_cases hlt : i < table.length
    · simp [hlt]
    · simp [hlt]
  · simp [hi, Ne.symm hi]

theorem row_tidyTable (table : List (List Nat)) (i : Nat) :
    row (tidyTable table) i = Graph.dropRepeats (Graph.sortAscending (row table i)) := by
  rw [row, row, tidyTable, List.getD_eq_getElem?_getD, List.getD_eq_getElem?_getD,
    List.getElem?_map]
  cases table[i]? with
  | none => rfl
  | some row => rfl

theorem mem_row_tidyTable {table : List (List Nat)} {i j : Nat} :
    j ∈ row (tidyTable table) i ↔ j ∈ row table i := by
  rw [row_tidyTable, Graph.mem_dropRepeats, Graph.mem_sortAscending]

theorem pairwise_row_tidyTable (table : List (List Nat)) (i : Nat) :
    (row (tidyTable table) i).Pairwise (· < ·) := by
  rw [row_tidyTable]
  exact Graph.pairwise_dropRepeats (Graph.pairwise_sortAscending _)

/-! ## Links -/

/-- All three stores have the pairs of a relation from dependencies to dependents. -/
structure Holds (l : Links) (size : Nat) (R : Nat → Nat → Prop) : Prop where
  edges : ∀ d i, (d, i) ∈ l.edges ↔ R d i
  single : l.edges.Nodup
  predecessors : ∀ d i, d ∈ row l.predecessors i ↔ R d i
  successors : ∀ d i, i ∈ row l.successors d ↔ R d i
  sizes : l.predecessors.length = size ∧ l.successors.length = size

variable {l : Links} {size : Nat} {R S : Nat → Nat → Prop}

theorem holds_blank (size : Nat) : (blank size).Holds size fun _ _ => False := by
  have hrow : ∀ i, row (List.replicate size []) i = [] := by
    intro i
    rw [row, List.getD_eq_getElem?_getD, List.getElem?_replicate]
    split <;> rfl
  refine ⟨by simp [blank], List.nodup_nil, ?_, ?_, by simp [blank]⟩
  · intro d i
    simp [blank, hrow]
  · intro d i
    simp [blank, hrow]

theorem Holds.congr (h : l.Holds size R) (hRS : ∀ d i, R d i ↔ S d i) : l.Holds size S :=
  ⟨fun d i => (h.edges d i).trans (hRS d i), h.single,
    fun d i => (h.predecessors d i).trans (hRS d i),
    fun d i => (h.successors d i).trans (hRS d i), h.sizes⟩

theorem Holds.connect (h : l.Holds size R) {d i : Nat} (hd : d < size) (hi : i < size) :
    (l.connect d i).Holds size fun a b => R a b ∨ a = d ∧ b = i := by
  obtain ⟨hbefore, hbehind⟩ := h.sizes
  refine ⟨?_, ?_, ?_, ?_, by simp [Links.connect, hbefore, hbehind]⟩
  · intro a b
    rw [← h.edges, Links.connect, ← Prod.mk.injEq]
    split
    · rename_i hstored
      exact ⟨.inl, fun hab => hab.elim id fun heq => heq ▸ hstored⟩
    · rw [List.mem_append, List.mem_singleton]
  · rw [Links.connect]
    split
    · exact h.single
    · rename_i hnew
      refine List.nodup_append.2 ⟨h.single, List.pairwise_singleton _ _, ?_⟩
      rintro e he e' he' rfl
      exact hnew (List.mem_singleton.1 he' ▸ he)
  · intro a b
    rw [Links.connect, mem_row_modify, h.predecessors, hbefore]
    simp only [hi, true_and, and_comm]
  · intro a b
    rw [Links.connect, mem_row_modify, h.successors, hbehind]
    simp only [hd, true_and]

theorem Holds.tidy (h : l.Holds size R) : l.tidy.Holds size R := by
  refine ⟨h.edges, h.single, ?_, ?_, by simpa [Links.tidy, tidyTable] using h.sizes⟩
  · intro d i
    rw [Links.tidy, mem_row_tidyTable, h.predecessors]
  · intro d i
    rw [Links.tidy, mem_row_tidyTable, h.successors]

end Links
end Conveyor
