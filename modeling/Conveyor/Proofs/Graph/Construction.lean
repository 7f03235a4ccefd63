import Conveyor.Proofs.Graph.Links
import Conveyor.Validation

/-!
# Conveyor.Proofs.Graph.Construction

What a graph says about the stages it was built from.

* `Graph.Needs`     — a stage is stored among the direct dependencies of another one.
* `Graph.Agrees`    — the edges and the dependents are stored for the same pairs of stages.
* `Graph.Describes` — the graph has the names of the stages, a place for each of them, and the
                      links between a stage and the names that it waits for, looked up.
* `describes_of_ofStages` — every graph that construction answers with describes its stages.

Construction makes two passes. The first gives every name its place (`register_ok`); the second
links each stage to the places of what it waits for (`link_ok`, `linkAll_ok`), one link at a time.
Everything later proofs need about neighbours, edges and lookups is derived from `Describes` here,
so that they never open the construction again.
-/

namespace Conveyor

/-! ## Names that a stage waits for -/

namespace Stage

theorem mem_firstMentions {n : String} :
    ∀ (l seen : List String), n ∈ firstMentions seen l ↔ n ∈ l ∧ n ∉ seen := by
  intro l
  induction l with
  | nil => intro seen; simp [firstMentions]
  | cons m rest ih =>
    intro seen
    by_cases hm : m ∈ seen
    · rw [firstMentions, if_pos hm, ih]
      constructor
      · rintro ⟨hr, hs⟩
        exact ⟨List.mem_cons_of_mem _ hr, hs⟩
      · rintro ⟨hr, hs⟩
        rcases List.mem_cons.1 hr with rfl | hr
        · exact absurd hm hs
        · exact ⟨hr, hs⟩
    · rw [firstMentions, if_neg hm, List.mem_cons, ih]
      by_cases hn : n = m
      · subst hn; simp [hm]
      · simp [hn]

/-- The stage names another one, as a dependency or as the producer of an input. -/
def WaitsFor (s : Stage) (n : String) : Prop :=
  n ∈ s.dependsOn ∨ ∃ e ∈ s.inputs.entries, e.2.stage = n

theorem mem_dependencyNames {s : Stage} {n : String} :
    n ∈ s.dependencyNames ↔ s.WaitsFor n := by
  simp [WaitsFor, dependencyNames, mem_firstMentions, Dict.values]

end Stage

namespace Graph

/-! ## The relation of a graph -/

/-- Stage `d` is stored among the direct dependencies of stage `i`. -/
def Needs (g : Graph) (i d : Nat) : Prop := d ∈ g.predecessorsOf i

/-- The three stores of the links have the same pairs, all of them of stages. -/
structure Agrees (g : Graph) : Prop where
  links : g.Holds g.size fun d i => g.Needs i d
  inRange : ∀ i d, g.Needs i d → i < g.size ∧ d < g.size
  ascending : ∀ i, (g.predecessorsOf i).Pairwise (· < ·) ∧ (g.successorsOf i).Pairwise (· < ·)

/-- A dictionary gives each name of a list its place, and no other name any. -/
def Locates (places : Dict Nat) (names : List String) : Prop :=
  ∀ n i, places.get? n = some i ↔ names[i]? = some n

/-- What construction guarantees. -/
structure Describes (g : Graph) (stages : List Stage) : Prop where
  names : g.names = stages.map (·.name)
  places : Locates g.places g.names
  found : ∀ s ∈ stages, ∀ n, s.WaitsFor n → ∃ d, g.index? n = some d
  /-- A stage needs what it waits for. -/
  needs : ∀ i d, g.Needs i d ↔
    ∃ s, stages[i]? = some s ∧ ∃ n, s.WaitsFor n ∧ g.index? n = some d
  agrees : g.Agrees

theorem mem_predecessorsOf {g : Graph} {i d : Nat} : d ∈ g.predecessorsOf i ↔ g.Needs i d :=
  Iff.rfl

namespace Agrees

variable {g : Graph}

theorem mem_edges (h : g.Agrees) {d i : Nat} : (d, i) ∈ g.edges ↔ g.Needs i d := h.links.edges d i

theorem mem_successorsOf (h : g.Agrees) {d i : Nat} : i ∈ g.successorsOf d ↔ g.Needs i d :=
  h.links.successors d i

theorem nodup_predecessorsOf (h : g.Agrees) (i : Nat) : (g.predecessorsOf i).Nodup :=
  (h.ascending i).1.imp Nat.ne_of_lt

theorem nodup_successorsOf (h : g.Agrees) (d : Nat) : (g.successorsOf d).Nodup :=
  (h.ascending d).2.imp Nat.ne_of_lt

theorem lt_of_mem_successorsOf (h : g.Agrees) {d i : Nat} (hi : i ∈ g.successorsOf d) :
    i < g.size :=
  (h.inRange i d (h.mem_successorsOf.1 hi)).1

end Agrees

namespace Locates

variable {places : Dict Nat} {names : List String}

theorem get?_eq_none_iff (h : Locates places names) {n : String} :
    places.get? n = none ↔ n ∉ names := by
  rw [Option.eq_none_iff_forall_ne_some, List.mem_iff_getElem?, not_exists]
  exact forall_congr' fun i => not_congr (h n i)

theorem empty : Locates ∅ [] := by
  intro n i
  have hnone : (∅ : Dict Nat).get? n = none := rfl
  simp [hnone]

theorem nodup (h : Locates places names) : names.Nodup := by
  refine List.pairwise_iff_getElem.2 ?_
  intro i j hi hj hij heq
  have hfirst := (h names[i] i).2 (List.getElem?_eq_getElem hi)
  have hsecond := (h names[j] j).2 (List.getElem?_eq_getElem hj)
  rw [heq, hsecond] at hfirst
  exact Nat.ne_of_gt hij (Option.some.inj hfirst)

theorem lt (h : Locates places names) {n : String} {i : Nat} (hi : places.get? n = some i) :
    i < names.length :=
  (List.getElem?_eq_some_iff.1 ((h n i).1 hi)).1

/-- A new name gets the place behind the others. -/
theorem insert (h : Locates places names) {n : String} (hn : n ∉ names) :
    Locates (places.insert n names.length) (names ++ [n]) := by
  intro m i
  rw [Dict.get?_insert]
  by_cases hm : m = n
  · subst hm
    have hold : names[i]? ≠ some m := fun hi => hn (List.mem_of_getElem? hi)
    rw [if_pos rfl, List.getElem?_append]
    split
    · rename_i hlt
      simp [hold, Nat.ne_of_gt hlt]
    · rw [List.getElem?_singleton]
      split
      · simp; omega
      · simp; omega
  · rw [if_neg hm, h m i, List.getElem?_append]
    split
    · exact Iff.rfl
    · rename_i hge
      have hnone : names[i]? = none := List.getElem?_eq_none (Nat.le_of_not_lt hge)
      rw [hnone, List.getElem?_singleton]
      split
      · simp [Ne.symm hm]
      · simp

end Locates

namespace Describes

variable {g : Graph} {stages : List Stage}

theorem size_eq (h : g.Describes stages) : g.size = stages.length := by
  simp [Graph.size, h.names]

theorem name_eq (h : g.Describes stages) {i : Nat} {s : Stage} (hs : stages[i]? = some s) :
    g.name i = s.name := by
  simp [Graph.name, h.names, hs]

theorem lt_of_needs (h : g.Describes stages) {i d : Nat} (hn : g.Needs i d) : i < g.size :=
  (h.agrees.inRange i d hn).1

theorem lt_of_needed (h : g.Describes stages) {i d : Nat} (hn : g.Needs i d) : d < g.size :=
  (h.agrees.inRange i d hn).2

theorem exists_stage (h : g.Describes stages) {i : Nat} (hi : i < g.size) :
    ∃ s, stages[i]? = some s := by
  rw [h.size_eq] at hi
  exact ⟨stages[i], List.getElem?_eq_getElem hi⟩

theorem index?_eq_some_iff (h : g.Describes stages) {n : String} {i : Nat} :
    g.index? n = some i ↔ ∃ s, stages[i]? = some s ∧ s.name = n := by
  rw [index?, h.places n i, h.names, List.getElem?_map, Option.map_eq_some_iff]

theorem name_inj (h : g.Describes stages) {i j : Nat} {s t : Stage} (hs : stages[i]? = some s)
    (ht : stages[j]? = some t) (hn : s.name = t.name) : i = j := by
  have hi := h.index?_eq_some_iff.2 ⟨s, hs, hn⟩
  have hj := h.index?_eq_some_iff.2 ⟨t, ht, rfl⟩
  rw [hi] at hj
  exact Option.some.inj hj

theorem needs_of_waitsFor (h : g.Describes stages) {i : Nat} {s : Stage}
    (hs : stages[i]? = some s) {n : String} (hn : s.WaitsFor n) :
    ∃ d, g.index? n = some d ∧ g.Needs i d := by
  obtain ⟨d, hd⟩ := h.found s (List.mem_of_getElem? hs) n hn
  exact ⟨d, hd, (h.needs i d).2 ⟨s, hs, n, hn, hd⟩⟩

/-- A stage needs another one exactly if it waits for its name. -/
theorem needs_iff_waitsFor (h : g.Describes stages) {i d : Nat} {s t : Stage}
    (hs : stages[i]? = some s) (ht : stages[d]? = some t) :
    g.Needs i d ↔ s.WaitsFor t.name := by
  rw [h.needs]
  constructor
  · rintro ⟨s', hs', n, hn, hi⟩
    obtain ⟨t', ht', rfl⟩ := h.index?_eq_some_iff.1 hi
    cases hs.symm.trans hs'
    cases ht.symm.trans ht'
    exact hn
  · intro hw
    exact ⟨s, hs, t.name, hw, h.index?_eq_some_iff.2 ⟨t, ht, rfl⟩⟩

theorem needs_of_input (h : g.Describes stages) {i : Nat} {s : Stage} (hs : stages[i]? = some s)
    {e : String × OutputRef} (he : e ∈ s.inputs.entries) :
    ∃ d, g.index? e.2.stage = some d ∧ g.Needs i d :=
  h.needs_of_waitsFor hs (.inr ⟨e, he, rfl⟩)

end Describes

/-! ## Places -/

theorem register_ok : ∀ {rest before : List String} {places places' : Dict Nat},
    Locates places before → register before.length places rest = .ok places' →
      Locates places' (before ++ rest) := by
  intro rest
  induction rest with
  | nil =>
    intro before places places' hplaces h
    cases h
    rwa [List.append_nil]
  | cons n rest ih =>
    intro before places places' hplaces h
    rw [register] at h
    split at h
    · cases h
    · rename_i hn
      have hnew : n ∉ before := hplaces.get?_eq_none_iff.1 (by simpa [Dict.contains] using hn)
      rw [List.append_cons]
      exact ih (hplaces.insert hnew) (by simpa using h)

/-- The first pass fails at a name that the list has twice. -/
theorem register_error {e : Error} : ∀ {rest before : List String} {places : Dict Nat},
    Locates places before → register before.length places rest = .error e →
      ∃ n, e = .duplicateStage n ∧ 2 ≤ (before ++ rest).count n := by
  intro rest
  induction rest with
  | nil =>
    intro before places _ h
    cases h
  | cons n rest ih =>
    intro before places hplaces h
    rw [register] at h
    split at h
    · rename_i hn
      cases h
      have hmem : n ∈ before := by
        refine Classical.byContradiction fun hnew => ?_
        simp [Dict.contains, hplaces.get?_eq_none_iff.2 hnew] at hn
      have hpos := List.count_pos_iff.2 hmem
      refine ⟨n, rfl, ?_⟩
      rw [List.count_append, List.count_cons_self]
      omega
    · rename_i hn
      have hnew : n ∉ before := hplaces.get?_eq_none_iff.1 (by simpa [Dict.contains] using hn)
      rw [List.append_cons]
      exact ih (hplaces.insert hnew) (by simpa using h)

/-! ## Links -/

section
variable {places : Dict Nat} {size : Nat}

/-- What linking the names of a list to stage `i` adds. -/
theorem link_ok (hplaces : ∀ n d, places.get? n = some d → d < size) {i : Nat} (hi : i < size)
    {stage : String} : ∀ {deps : List String} {l l' : Links} {R : Nat → Nat → Prop},
      l.Holds size R → link places i stage deps l = .ok l' →
      (∀ n ∈ deps, ∃ d, places.get? n = some d) ∧
      l'.Holds size fun a b => R a b ∨ b = i ∧ ∃ n ∈ deps, places.get? n = some a := by
  intro deps
  induction deps with
  | nil =>
    intro l l' R hl h
    cases h
    exact ⟨by simp, hl.congr (by simp)⟩
  | cons n rest ih =>
    intro l l' R hl h
    rw [link] at h
    split at h
    · cases h
    · rename_i d hd
      obtain ⟨hfound, hl'⟩ := ih (hl.connect (hplaces n d hd) hi) h
      refine ⟨List.forall_mem_cons.2 ⟨⟨d, hd⟩, hfound⟩, hl'.congr ?_⟩
      intro a b
      have hfirst : places.get? n = some a ↔ a = d := by rw [hd, Option.some.injEq, eq_comm]
      have hcons : (∃ m ∈ n :: rest, places.get? m = some a) ↔
          a = d ∨ ∃ m ∈ rest, places.get? m = some a := by simp [hfirst]
      have hpair : a = d ∧ b = i ↔ b = i ∧ a = d := and_comm
      rw [hcons, and_or_left, or_assoc, hpair]

theorem link_error {i : Nat} {stage : String} {e : Error} :
    ∀ {deps : List String} {l : Links}, link places i stage deps l = .error e →
      ∃ n ∈ deps, places.get? n = none ∧ e = .unknownDependency stage n := by
  intro deps
  induction deps with
  | nil =>
    intro l h
    cases h
  | cons n rest ih =>
    intro l h
    rw [link] at h
    split at h
    · rename_i hn
      cases h
      exact ⟨n, List.mem_cons_self, hn, rfl⟩
    · obtain ⟨m, hm, hnone, he⟩ := ih h
      exact ⟨m, List.mem_cons_of_mem n hm, hnone, he⟩

/-- In a list that begins at place `i`, the stage at place `b` waits for what is at place `a`. -/
def Waits (places : Dict Nat) (i : Nat) (stages : List Stage) (a b : Nat) : Prop :=
  ∃ k s, b = i + k ∧ stages[k]? = some s ∧ ∃ n, s.WaitsFor n ∧ places.get? n = some a

theorem waits_cons {i a b : Nat} {s : Stage} {rest : List Stage} :
    Waits places i (s :: rest) a b ↔
      (b = i ∧ ∃ n, s.WaitsFor n ∧ places.get? n = some a) ∨ Waits places (i + 1) rest a b := by
  constructor
  · rintro ⟨k, t, rfl, ht, hn⟩
    cases k with
    | zero =>
      cases ht
      exact .inl ⟨rfl, hn⟩
    | succ k => exact .inr ⟨k, t, by omega, ht, hn⟩
  · rintro (⟨rfl, hn⟩ | ⟨k, t, rfl, ht, hn⟩)
    · exact ⟨0, s, rfl, rfl, hn⟩
    · exact ⟨k + 1, t, by omega, ht, hn⟩

/-- What linking the stages of a list, which begins at place `i`, adds. -/
theorem linkAll_ok (hplaces : ∀ n d, places.get? n = some d → d < size) :
    ∀ {stages : List Stage} {i : Nat} {l l' : Links} {R : Nat → Nat → Prop},
      i + stages.length ≤ size → l.Holds size R → linkAll places i stages l = .ok l' →
      (∀ s ∈ stages, ∀ n, s.WaitsFor n → ∃ d, places.get? n = some d) ∧
      l'.Holds size fun a b => R a b ∨ Waits places i stages a b := by
  intro stages
  induction stages with
  | nil =>
    intro i l l' R _ hl h
    cases h
    exact ⟨by simp, hl.congr (by simp [Waits])⟩
  | cons s rest ih =>
    intro i l l' R hsize hl h
    rw [List.length_cons] at hsize
    rw [linkAll] at h
    split at h
    · cases h
    · rename_i mid hmid
      obtain ⟨hfirst, hheld⟩ := link_ok hplaces (by omega) hl hmid
      obtain ⟨hfound, hl'⟩ := ih (by omega) hheld h
      simp only [Stage.mem_dependencyNames] at hfirst hl'
      refine ⟨List.forall_mem_cons.2 ⟨hfirst, hfound⟩, hl'.congr ?_⟩
      intro a b
      rw [waits_cons, or_assoc]

theorem linkAll_error {e : Error} : ∀ {stages : List Stage} {i : Nat} {l : Links},
    linkAll places i stages l = .error e →
      ∃ s ∈ stages, ∃ n, s.WaitsFor n ∧ places.get? n = none ∧
        e = .unknownDependency s.name n := by
  intro stages
  induction stages with
  | nil =>
    intro i l h
    cases h
  | cons s rest ih =>
    intro i l h
    rw [linkAll] at h
    split at h
    · rename_i hlink
      cases h
      obtain ⟨n, hn, hnone, he⟩ := link_error hlink
      exact ⟨s, List.mem_cons_self, n, Stage.mem_dependencyNames.1 hn, hnone, he⟩
    · obtain ⟨t, ht, hunknown⟩ := ih h
      exact ⟨t, List.mem_cons_of_mem s ht, hunknown⟩

end

/-! ## Graphs -/

/-- What both passes leave describes the stages. -/
theorem describes_of_linkAll {stages : List Stage} {places : Dict Nat} {links : Links}
    (hplaces : Locates places (stages.map (·.name)))
    (hlink : linkAll places 0 stages (.blank stages.length) = .ok links) :
    Describes { links.tidy with names := stages.map (·.name), places } stages := by
  have hlt : ∀ n d, places.get? n = some d → d < stages.length := by
    intro n d hd
    simpa using hplaces.lt hd
  obtain ⟨hfound, hlinks⟩ := linkAll_ok hlt (by omega) (Links.holds_blank _) hlink
  let g : Graph := { links.tidy with names := stages.map (·.name), places }
  have hneeds : ∀ d i, g.Needs i d ↔ False ∨ Waits places 0 stages d i :=
    hlinks.tidy.predecessors
  have hsize : g.size = stages.length := List.length_map _
  refine ⟨rfl, hplaces, hfound, ?_, ?_, ?_, ?_⟩
  · intro i d
    rw [hneeds, false_or, Waits]
    simp only [Nat.zero_add, exists_and_left, exists_eq_left']
    rfl
  · rw [hsize]
    exact hlinks.tidy.congr fun d i => (hneeds d i).symm
  · intro i d hn
    obtain ⟨k, s, rfl, hs, n, _, hd⟩ := (hneeds d i).1 hn |>.resolve_left id
    rw [hsize, Nat.zero_add]
    exact ⟨(List.getElem?_eq_some_iff.1 hs).1, hlt n d hd⟩
  · intro i
    exact ⟨Links.pairwise_row_tidyTable _ i, Links.pairwise_row_tidyTable _ i⟩

/-- A graph that construction answers with describes its stages and has no cycle. -/
theorem describes_of_ofStages {stages : List Stage} {g : Graph} (h : ofStages stages = .ok g) :
    g.Describes stages ∧ g.cycle? = none := by
  simp only [ofStages] at h
  split at h
  · cases h
  · rename_i places hregister
    split at h
    · cases h
    · rename_i links hlink
      split at h
      · cases h
      · rename_i hcycle
        cases h
        exact ⟨describes_of_linkAll (register_ok .empty hregister) hlink, hcycle⟩

end Graph

theorem graph_of_ensureValid {p : Pipeline} {g : Graph} (h : p.ensureValid = .ok g) :
    p.graph = .ok g := by
  simp only [Pipeline.ensureValid] at h
  split at h
  · cases h
  · rename_i g' hg
    split at h
    · cases h; exact hg
    · cases h

end Conveyor
