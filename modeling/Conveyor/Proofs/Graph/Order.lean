import Conveyor.Proofs.Graph.Acyclic

/-!
# Conveyor.Proofs.Graph.Order

The order of a graph without a cycle holds every stage once, and each after its dependencies.

The sweep is followed with the list of the stages it has placed. `Swept` ties its two fields to
that list: the count of a stage is the number of its dependencies that are not placed yet, and
the ready stages, ascending, are those that are not placed but could be. One round keeps it
(`Swept.place`), so no count falls below zero; and while a stage is missing, one of least rank
among the missing is ready (`Swept.ready_ne_nil`), so the sweep does not stop early.
-/

namespace Conveyor
namespace Graph

/-! ## Lowering counts -/

/-- What lowering the counts of some stages, all of them positive, does. -/
structure Lowered (l : List Nat) (s s' : Sweep) : Prop where
  counts : ∀ j, s'.counts[j]? = if j ∈ l then s.counts[j]?.map (· - 1) else s.counts[j]?
  ready : ∀ j, j ∈ s'.ready ↔ j ∈ s.ready ∨ j ∈ l ∧ s.counts[j]? = some 1
  ascending : s.ready.Pairwise (· < ·) → s'.ready.Pairwise (· < ·)

theorem lower?_ok {s : Sweep} {i n : Nat} (hc : s.counts[i]? = some (n + 1)) (hr : i ∉ s.ready) :
    ∃ s', s.lower? i = some s' ∧ Lowered [i] s s' := by
  have hlt : i < s.counts.length := (List.getElem?_eq_some_iff.1 hc).1
  have hset : ∀ m j, (s.counts.set i m)[j]? = if j ∈ [i] then some m else s.counts[j]? := by
    intro m j
    by_cases hj : j = i
    · subst hj; simp [hlt]
    · rw [List.getElem?_set_ne (Ne.symm hj)]; simp [hj]
  cases n with
  | zero =>
    refine ⟨{ counts := s.counts.set i 0, ready := insertAscending i s.ready },
      by simp only [Sweep.lower?, hc], ?_, ?_, ?_⟩
    · intro j
      rw [hset]
      by_cases hj : j = i
      · subst hj; simp [hc]
      · simp [hj]
    · intro j
      rw [mem_insertAscending]
      constructor
      · rintro (rfl | h)
        · exact .inr ⟨List.mem_singleton_self _, hc⟩
        · exact .inl h
      · rintro (h | ⟨h, _⟩)
        · exact .inr h
        · exact .inl (List.mem_singleton.1 h)
    · intro ha
      refine pairwise_insertAscending (fun _ _ => Nat.le_of_lt) ha fun j hj => ⟨id, fun hij => ?_⟩
      exact Nat.lt_of_le_of_ne hij fun heq => hr (heq ▸ hj)
  | succ n =>
    refine ⟨{ s with counts := s.counts.set i (n + 1) }, by simp only [Sweep.lower?, hc],
      ?_, ?_, fun ha => ha⟩
    · intro j
      rw [hset]
      by_cases hj : j = i
      · subst hj; simp [hc]
      · simp [hj]
    · intro j
      refine ⟨.inl, ?_⟩
      rintro (h | ⟨h, h1⟩)
      · exact h
      · rw [List.mem_singleton.1 h, hc] at h1
        cases h1

theorem lowerAll?_ok : ∀ (l : List Nat) (s : Sweep), l.Nodup →
    (∀ j ∈ l, (∃ n, s.counts[j]? = some (n + 1)) ∧ j ∉ s.ready) →
    ∃ s', s.lowerAll? l = some s' ∧ Lowered l s s' := by
  intro l
  induction l with
  | nil => intro s _ _; exact ⟨s, rfl, by simp, by simp, fun h => h⟩
  | cons i rest ih =>
    intro s hn hl
    obtain ⟨hir, hn⟩ := List.nodup_cons.1 hn
    obtain ⟨⟨n, hc⟩, hr⟩ := hl i List.mem_cons_self
    obtain ⟨s₁, h₁, low₁⟩ := lower?_ok hc hr
    -- the stages after `i` still have the counts they had
    have hsame : ∀ j ∈ rest, s₁.counts[j]? = s.counts[j]? := by
      intro j hj
      rw [low₁.counts, if_neg]
      exact fun h => hir (List.mem_singleton.1 h ▸ hj)
    obtain ⟨s₂, h₂, low₂⟩ := ih s₁ hn (by
      intro j hj
      obtain ⟨hcj, hrj⟩ := hl j (List.mem_cons_of_mem _ hj)
      refine ⟨by rw [hsame j hj]; exact hcj, fun h => ?_⟩
      rcases (low₁.ready j).1 h with h | ⟨h, _⟩
      · exact hrj h
      · exact hir (List.mem_singleton.1 h ▸ hj))
    refine ⟨s₂, by simp only [Sweep.lowerAll?, h₁]; exact h₂, ?_, ?_,
      fun h => low₂.ascending (low₁.ascending h)⟩
    · intro j
      rw [low₂.counts, low₁.counts]
      by_cases hji : j = i
      · subst hji; simp [hir]
      · by_cases hjr : j ∈ rest <;> simp [hji, hjr]
    · intro j
      rw [low₂.ready, low₁.ready]
      constructor
      · rintro ((h | ⟨h, h1⟩) | ⟨h, h1⟩)
        · exact .inl h
        · exact .inr ⟨List.mem_singleton.1 h ▸ List.mem_cons_self, h1⟩
        · exact .inr ⟨List.mem_cons_of_mem _ h, hsame j h ▸ h1⟩
      · rintro (h | ⟨h, h1⟩)
        · exact .inl (.inl h)
        · rcases List.mem_cons.1 h with rfl | h
          · exact .inl (.inr ⟨List.mem_singleton_self _, h1⟩)
          · exact .inr ⟨h, (hsame j h).symm ▸ h1⟩

/-! ## The sweep -/

/-- The dependencies of a stage that are not placed yet. -/
def openDependencies (g : Graph) (placed : List Nat) (i : Nat) : List Nat :=
  (g.predecessorsOf i).filter (· ∉ placed)

/-- What the sweep knows once it has placed some stages. -/
structure Swept (g : Graph) (placed : List Nat) (s : Sweep) : Prop where
  /-- What is placed came after its dependencies. -/
  closed : ∀ j ∈ placed, g.openDependencies placed j = []
  counts : ∀ j, j < g.size → s.counts[j]? = some (g.openDependencies placed j).length
  ready : ∀ j, j ∈ s.ready ↔ j < g.size ∧ j ∉ placed ∧ g.openDependencies placed j = []
  ascending : s.ready.Pairwise (· < ·)

/-- Every stage of the list comes after its dependencies, some of which are placed already. -/
def DependenciesFirst (g : Graph) : List Nat → List Nat → Prop
  | _, [] => True
  | placed, i :: rest =>
    (∀ d ∈ g.predecessorsOf i, d ∈ placed) ∧ g.DependenciesFirst (i :: placed) rest

theorem openDependencies_eq_nil_iff {g : Graph} {placed : List Nat} {i : Nat} :
    g.openDependencies placed i = [] ↔ ∀ d ∈ g.predecessorsOf i, d ∈ placed := by
  simp [openDependencies, List.filter_eq_nil_iff]

theorem openDependencies_cons {g : Graph} (hg : g.Agrees) (placed : List Nat) (i j : Nat) :
    g.openDependencies (i :: placed) j = (g.openDependencies placed j).erase i := by
  have hn : (g.openDependencies placed j).Nodup := (hg.nodup_predecessorsOf j).filter _
  rw [hn.erase_eq_filter]
  simp only [openDependencies, List.filter_filter]
  apply List.filter_congr
  intro d _
  by_cases hd : d = i <;> simp [hd]

theorem swept_start (g : Graph) : g.Swept [] g.sweepStart := by
  refine ⟨by simp, ?_, ?_, List.Pairwise.filter _ List.pairwise_lt_range⟩
  · intro j hj
    simp [sweepStart, openDependencies, hj]
  · intro j
    simp [sweepStart, openDependencies]

namespace Swept

variable {g : Graph} {placed : List Nat} {s : Sweep} {i : Nat} {ready : List Nat}

/-- The dependents of a ready stage wait for it. -/
theorem mem_open_iff (h : g.Swept placed s) (hg : g.Agrees) (hi : i ∈ s.ready) (j : Nat) :
    i ∈ g.openDependencies placed j ↔ j ∈ g.successorsOf i := by
  obtain ⟨_, hip, _⟩ := (h.ready i).1 hi
  rw [openDependencies, List.mem_filter, hg.mem_successorsOf, Needs]
  exact and_iff_left (by simpa using hip)

theorem mem_rest_iff (h : g.Swept placed s) (hr : s.ready = i :: ready) (j : Nat) :
    j ∈ ready ↔ j ∈ s.ready ∧ j ≠ i := by
  have hasc := h.ascending
  rw [hr] at hasc ⊢
  obtain ⟨hi, _⟩ := List.pairwise_cons.1 hasc
  constructor
  · intro hj
    exact ⟨List.mem_cons_of_mem _ hj, Nat.ne_of_gt (hi j hj)⟩
  · rintro ⟨hj, hne⟩
    exact (List.mem_cons.1 hj).resolve_left hne

/-- The counts of the dependents of a ready stage can be lowered. -/
theorem can_lower (h : g.Swept placed s) (hg : g.Agrees) (hr : s.ready = i :: ready) :
    ∃ s', ({ s with ready } : Sweep).lowerAll? (g.successorsOf i) = some s' ∧
      Lowered (g.successorsOf i) { s with ready } s' := by
  have hi : i ∈ s.ready := hr ▸ List.mem_cons_self
  refine lowerAll?_ok _ _ (hg.nodup_successorsOf i) ?_
  intro j hj
  have hlt := hg.lt_of_mem_successorsOf hj
  have hmem := (h.mem_open_iff hg hi j).2 hj
  constructor
  · obtain ⟨n, hn⟩ := Nat.exists_eq_add_of_lt (List.length_pos_of_mem hmem)
    exact ⟨n, by simpa [hn] using h.counts j hlt⟩
  · intro hjr
    rw [((h.ready j).1 ((h.mem_rest_iff hr j).1 hjr).1).2.2] at hmem
    cases hmem

theorem place (h : g.Swept placed s) (hg : g.Agrees) (hr : s.ready = i :: ready) :
    ∃ s', ({ s with ready } : Sweep).lowerAll? (g.successorsOf i) = some s' ∧
      g.Swept (i :: placed) s' := by
  have hi : i ∈ s.ready := hr ▸ List.mem_cons_self
  obtain ⟨hlt, hip, hopen⟩ := (h.ready i).1 hi
  obtain ⟨s', hs', low⟩ := h.can_lower hg hr
  refine ⟨s', hs', ?_, ?_, ?_, ?_⟩
  · intro j hj
    rw [openDependencies_cons hg]
    rcases List.mem_cons.1 hj with rfl | hj
    · rw [hopen]; rfl
    · rw [h.closed j hj]; rfl
  · intro j hj
    have hc : ({ s with ready } : Sweep).counts[j]? = _ := h.counts j hj
    rw [low.counts, hc, openDependencies_cons hg, List.length_erase]
    by_cases hjs : j ∈ g.successorsOf i
    · simp [hjs, (h.mem_open_iff hg hi j).2 hjs]
    · simp [hjs, mt (h.mem_open_iff hg hi j).1 hjs]
  · intro j
    rw [low.ready, h.mem_rest_iff hr, h.ready, openDependencies_cons hg]
    constructor
    · rintro (⟨⟨hj, hjp, hjo⟩, hne⟩ | ⟨hjs, hone⟩)
      · exact ⟨hj, by simp [hne, hjp], by rw [hjo]; rfl⟩
      · have hj := hg.lt_of_mem_successorsOf hjs
        have hmem := (h.mem_open_iff hg hi j).2 hjs
        have hlen : (g.openDependencies placed j).length = 1 := by
          have hc : ({ s with ready } : Sweep).counts[j]? = _ := h.counts j hj
          rw [hc] at hone
          exact Option.some.inj hone
        obtain ⟨d, hd⟩ := List.length_eq_one_iff.1 hlen
        have hdi : i = d := by rw [hd] at hmem; exact List.mem_singleton.1 hmem
        refine ⟨hj, ?_, by rw [hd, hdi]; simp⟩
        intro hjp
        rcases List.mem_cons.1 hjp with rfl | hjp
        · rw [hopen] at hmem; cases hmem
        · rw [h.closed j hjp] at hmem; cases hmem
    · rintro ⟨hj, hjp, hje⟩
      simp only [List.mem_cons, not_or] at hjp
      by_cases hmem : i ∈ g.openDependencies placed j
      · refine .inr ⟨(h.mem_open_iff hg hi j).1 hmem, ?_⟩
        have hlen := List.length_erase_of_mem hmem
        rw [hje] at hlen
        have hpos := List.length_pos_of_mem hmem
        have hc : ({ s with ready } : Sweep).counts[j]? = _ := h.counts j hj
        rw [hc]
        simp only [List.length_nil] at hlen
        congr 1; omega
      · rw [List.erase_of_not_mem hmem] at hje
        exact .inl ⟨⟨hj, hjp.2, hje⟩, hjp.1⟩
  · apply low.ascending
    have hasc := h.ascending
    rw [hr] at hasc
    exact (List.pairwise_cons.1 hasc).2

/-- While a stage is missing, some stage is ready: one of least rank among the missing. -/
theorem all_placed (h : g.Swept placed s) (hg : g.Agrees) {rank : Nat → Nat}
    (hrank : ∀ i d, g.Needs i d → rank d < rank i) (hr : s.ready = []) :
    ∀ (n j : Nat), rank j ≤ n → j < g.size → j ∈ placed := by
  intro n
  induction n with
  | zero =>
    intro j hn hj
    apply Classical.byContradiction
    intro hjp
    have hopen : g.openDependencies placed j = [] := by
      apply openDependencies_eq_nil_iff.2
      intro d hd
      have := hrank j d hd
      omega
    have hmem := (h.ready j).2 ⟨hj, hjp, hopen⟩
    rw [hr] at hmem; cases hmem
  | succ n ih =>
    intro j hn hj
    apply Classical.byContradiction
    intro hjp
    have hopen : g.openDependencies placed j = [] := by
      apply openDependencies_eq_nil_iff.2
      intro d hd
      have := hrank j d hd
      exact ih d (by omega) (hg.inRange j d hd).2
    have hmem := (h.ready j).2 ⟨hj, hjp, hopen⟩
    rw [hr] at hmem; cases hmem

end Swept

/-- From any state of the sweep, the stages that are left come once each and in order. -/
theorem sweepFrom?_ok {g : Graph} (hg : g.Agrees) {rank : Nat → Nat}
    (hrank : ∀ i d, g.Needs i d → rank d < rank i) :
    ∀ (fuel : Nat) (placed : List Nat) (s : Sweep), g.Swept placed s → placed.Nodup →
      (∀ i ∈ placed, i < g.size) → g.size = fuel + placed.length →
      ∃ l, g.sweepFrom? fuel s = some l ∧ l.Nodup ∧
        (∀ j, j ∈ l ↔ j < g.size ∧ j ∉ placed) ∧ g.DependenciesFirst placed l := by
  intro fuel
  induction fuel with
  | zero =>
    intro placed s h hn hlt hsize
    refine ⟨[], rfl, List.nodup_nil, ?_, trivial⟩
    intro j
    simp only [List.not_mem_nil, false_iff, not_and, Classical.not_not]
    intro hj
    apply Classical.byContradiction
    intro hjp
    have hlen := length_le_size (g := g) (List.nodup_cons.2 ⟨hjp, hn⟩) (by
      intro i hi
      rcases List.mem_cons.1 hi with rfl | hi
      · exact hj
      · exact hlt i hi)
    simp only [List.length_cons] at hlen
    omega
  | succ fuel ih =>
    intro placed s h hn hlt hsize
    cases hr : s.ready with
    | nil =>
      refine ⟨[], by simp only [sweepFrom?, hr], List.nodup_nil, ?_, trivial⟩
      intro j
      simp only [List.not_mem_nil, false_iff, not_and, Classical.not_not]
      exact h.all_placed hg hrank hr (rank j) j (Nat.le_refl _)
    | cons i ready =>
      obtain ⟨hi, hip, hopen⟩ := (h.ready i).1 (hr ▸ List.mem_cons_self)
      obtain ⟨s', hs', h'⟩ := h.place hg hr
      obtain ⟨l, hl, hnl, hmem, hfirst⟩ := ih (i :: placed) s' h' (List.nodup_cons.2 ⟨hip, hn⟩)
        (by
          intro j hj
          rcases List.mem_cons.1 hj with rfl | hj
          · exact hi
          · exact hlt j hj)
        (by simp only [List.length_cons]; omega)
      refine ⟨i :: l, by simp only [sweepFrom?, hr, hs', hl]; rfl, ?_, ?_,
        openDependencies_eq_nil_iff.1 hopen, hfirst⟩
      · refine List.nodup_cons.2 ⟨fun h => ?_, hnl⟩
        exact ((hmem i).1 h).2 List.mem_cons_self
      · intro j
        rw [List.mem_cons, hmem]
        by_cases hji : j = i
        · subst hji; simp [hi, hip]
        · simp [hji]

/-! ## The order -/

/-- The order holds every stage once, and each after its dependencies. -/
structure Ordered (g : Graph) : Prop where
  nodup : g.order.Nodup
  mem_iff : ∀ i, i ∈ g.order ↔ i < g.size
  first : g.DependenciesFirst [] g.order

/-- In a graph with ranks no count falls below zero. -/
theorem sweep?_eq_order {g : Graph} (hg : g.Agrees) {rank : Nat → Nat}
    (hrank : ∀ i d, g.Needs i d → rank d < rank i) : g.sweep? = some g.order := by
  obtain ⟨l, hl, _⟩ := sweepFrom?_ok hg hrank g.size [] g.sweepStart g.swept_start List.nodup_nil
    (by simp) (by simp)
  have hsweep : g.sweep? = some l := hl
  rw [order, hsweep, Option.getD_some]

theorem ordered_of_rank {g : Graph} (hg : g.Agrees) {rank : Nat → Nat}
    (hrank : ∀ i d, g.Needs i d → rank d < rank i) : g.Ordered := by
  obtain ⟨l, hl, hn, hmem, hfirst⟩ := sweepFrom?_ok hg hrank g.size [] g.sweepStart g.swept_start
    List.nodup_nil (by simp) (by simp)
  have hl' : g.order = l := by simp only [order, sweep?, hl, Option.getD_some]
  refine ⟨hl' ▸ hn, ?_, hl' ▸ hfirst⟩
  intro i
  rw [hl', hmem]
  simp

end Graph
end Conveyor
