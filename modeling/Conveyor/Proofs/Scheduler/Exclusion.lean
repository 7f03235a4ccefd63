import Conveyor.Proofs.Scheduler.Operations
import Mathlib.Data.List.Nodup

/-!
# Conveyor.Proofs.Scheduler.Exclusion

Commands in flight, the lock table and the workers.

The status of a stage says nothing about its locks: an abort ends a running stage while its
command lives on. What the table follows is the command. `Traffic` ties the table, the commands
in flight and the notices to each other and to the statuses only as far as both agree: a running
stage has a command, and a stage with a command does not wait.

* `Traffic`           — the invariant.
* `Reachable.traffic` — it holds at every reachable point.
* `locks_follow_commands` — a group is held exactly by the stage in flight that has it, so no two
  commands in flight share a group; and there are never more of them than workers.
-/

namespace Conveyor
namespace Scheduler

variable {u : Setup} {env : Environment} {s s' : State} {i : Nat} {stage : Stage} {o : Outcome}

structure Traffic (u : Setup) (s : State) : Prop where
  /-- No stage has two commands in flight. -/
  single : s.flights.Nodup
  staffed : s.flights.length ≤ u.workers
  known : ∀ i ∈ s.flights, ∃ stage, u.stage? i = some stage
  /-- A stage with a command in flight does not wait. -/
  flying : ∀ i ∈ s.flights, ∃ o, s.run.outcome? i = some o ∧ o.status.waits = false
  running : ∀ i o, s.run.outcome? i = some o → o.status = .running → i ∈ s.flights
  locked : ∀ group i, s.locks.holder group = some i ↔
    i ∈ s.flights ∧ ∃ stage, u.stage? i = some stage ∧ stage.concurrencyGroup = some group
  once : s.starts.Nodup
  started : ∀ i ∈ s.starts, ∃ o, s.run.outcome? i = some o ∧ o.status.waits = false

theorem traffic_start (u : Setup) : Traffic u (State.start u) := by
  refine ⟨List.nodup_nil, Nat.zero_le _, nofun, nofun, ?_, ?_, List.nodup_nil, nofun⟩
  · intro i o ho hs
    obtain ⟨stage, _, rfl⟩ := outcome_of_start ho
    cases hs
  · intro group i
    constructor
    · intro h; cases h
    · rintro ⟨h, _⟩; cases h

/-! ## Lock tables -/

/-- Taking the group of a stage that has no command in flight. -/
theorem holder_of_lock? {locks : Locks} {group : String} {j : Nat}
    (h : lock? s.locks i stage = some locks) :
    locks.holder group = some j ↔
      s.locks.holder group = some j ∨ j = i ∧ stage.concurrencyGroup = some group := by
  rw [lock?] at h
  split at h
  · rename_i hnone
    cases h
    simp [hnone]
  · rename_i own hown
    have hfree : ¬ ∃ other, s.locks.holder own = some other ∧ other ≠ i := by
      rw [← Locks.acquire?_eq_none_iff, h]
      simp
    rw [Locks.holder_of_acquire? h, hown]
    by_cases hg : group = own
    · subst hg
      simp only [if_true, Option.some.injEq, and_true]
      constructor
      · intro hij
        exact .inr hij.symm
      · rintro (hj | rfl)
        · apply Classical.byContradiction
          intro hne
          exact hfree ⟨j, hj, fun hji => hne hji.symm⟩
        · rfl
    · have : own ≠ group := fun h => hg h.symm
      simp [hg, this]

theorem holder_release {l : Locks} {group : String} {j : Nat} :
    (l.release i).holder group = some j ↔ l.holder group = some j ∧ j ≠ i := by
  rw [Locks.holder_release]
  by_cases h : l.holder group = some i
  · rw [if_pos h, h]
    simp only [Option.some.injEq, reduceCtorEq, false_iff]
    rintro ⟨rfl, hne⟩
    exact hne rfl
  · rw [if_neg h]
    constructor
    · intro hj
      exact ⟨hj, fun hji => h (hji ▸ hj)⟩
    · exact And.left

/-! ## One move -/

theorem ne_running_of_isTerminal {st : Status} (h : st.isTerminal = true) : st ≠ .running := by
  rintro rfl
  cases h

namespace Traffic

theorem not_mem_flights (h : Traffic u s) (ho : s.run.outcome? i = some o)
    (hs : o.status.waits = true) : i ∉ s.flights := by
  intro hi
  obtain ⟨o', ho', hs'⟩ := h.flying i hi
  rw [ho] at ho'
  cases ho'
  rw [hs] at hs'
  cases hs'

/-- A move that starts nothing and lands nothing. -/
theorem of_still (h : Traffic u s) (hm : Move u env s s') (hstarts : s'.starts = s.starts)
    (hflights : s'.flights = s.flights)
    (hlocks : ∀ group j, s'.locks.holder group = some j ↔ s.locks.holder group = some j)
    (hrunning : ∀ j o, s'.run.outcome? j = some o → o.status = .running →
      s.run.outcome? j = some o) : Traffic u s' := by
  refine ⟨?_, ?_, ?_, ?_, ?_, ?_, ?_, ?_⟩
  · rw [hflights]; exact h.single
  · rw [hflights]; exact h.staffed
  · rw [hflights]; exact h.known
  · intro j hj
    rw [hflights] at hj
    obtain ⟨o, ho, hs⟩ := h.flying j hj
    exact hm.departed ho hs
  · intro j o ho hs
    rw [hflights]
    exact h.running j o (hrunning j o ho hs) hs
  · intro group j
    rw [hlocks, hflights]
    exact h.locked group j
  · rw [hstarts]; exact h.once
  · intro j hj
    rw [hstarts] at hj
    obtain ⟨o, ho, hs⟩ := h.started j hj
    exact hm.departed ho hs

/-- A move that lands the command of a stage which does not run afterwards. -/
theorem of_land (h : Traffic u s) (hm : Move u env s s')
    (hflights : s'.flights = (s.land i).flights) (hstarts : s'.starts = s.starts)
    (hlocks : s'.locks = s.locks.release i)
    (hrunning : ∀ j o, s'.run.outcome? j = some o → o.status = .running →
      s.run.outcome? j = some o ∧ j ≠ i) : Traffic u s' := by
  have hmem : ∀ j, j ∈ s'.flights ↔ j ∈ s.flights ∧ j ≠ i := by
    intro j
    rw [hflights, State.flights_land, List.mem_filter]
    simp
  refine ⟨?_, ?_, ?_, ?_, ?_, ?_, ?_, ?_⟩
  · rw [hflights, State.flights_land]
    exact h.single.filter _
  · rw [hflights, State.flights_land]
    exact Nat.le_trans (List.length_filter_le _ _) h.staffed
  · exact fun j hj => h.known j ((hmem j).1 hj).1
  · intro j hj
    obtain ⟨o, ho, hs⟩ := h.flying j ((hmem j).1 hj).1
    exact hm.departed ho hs
  · intro j o ho hs
    obtain ⟨ho, hne⟩ := hrunning j o ho hs
    exact (hmem j).2 ⟨h.running j o ho hs, hne⟩
  · intro group j
    rw [hlocks, holder_release, h.locked, hmem]
    constructor
    · rintro ⟨⟨hj, hgroup⟩, hne⟩
      exact ⟨⟨hj, hne⟩, hgroup⟩
    · rintro ⟨⟨hj, hne⟩, hgroup⟩
      exact ⟨⟨hj, hgroup⟩, hne⟩
  · rw [hstarts]; exact h.once
  · intro j hj
    rw [hstarts] at hj
    obtain ⟨o, ho, hs⟩ := h.started j hj
    exact hm.departed ho hs

/-- Starting the command of a queued stage with its group taken. -/
theorem launch (h : Traffic u s) {locks : Locks} {request : CommandRequest}
    (ho : s.run.outcome? i = some o) (hstage : u.stage? i = some stage)
    (hs : o.status = .queued) (hroom : s.inFlight.length < u.workers)
    (hlock : lock? s.locks i stage = some locks) : Traffic u (s.launch i o locks request) := by
  have hwaits : o.status.waits = true := by rw [hs]; rfl
  have hi : i ∉ s.flights := h.not_mem_flights ho hwaits
  have hset := Run.outcome?_setOutcome ho (o.begin s.run.clock)
  have hdeparted : ∀ j, (∃ a, s.run.outcome? j = some a ∧ a.status.waits = false) →
      ∃ a, (s.launch i o locks request).run.outcome? j = some a ∧ a.status.waits = false := by
    rintro j ⟨a, ha, has⟩
    rw [State.run_launch, hset]
    by_cases hj : j = i
    · exact ⟨_, by rw [if_pos hj], rfl⟩
    · exact ⟨a, by rw [if_neg hj, ha], has⟩
  have hself : ∃ a, (s.launch i o locks request).run.outcome? i = some a ∧
      a.status.waits = false := ⟨_, by rw [State.run_launch, hset, if_pos rfl], rfl⟩
  have hmem : ∀ j, j ∈ (s.launch i o locks request).flights ↔ j ∈ s.flights ∨ j = i := by
    intro j; simp
  refine ⟨?_, ?_, ?_, ?_, ?_, ?_, ?_, ?_⟩
  · rw [State.flights_launch]
    refine List.nodup_append.2 ⟨h.single, by simp, ?_⟩
    intro a ha b hb
    rw [List.mem_singleton.1 hb]
    rintro rfl
    exact hi ha
  · rw [State.flights_launch, List.length_append, State.flights, List.length_map]
    exact hroom
  · intro j hj
    rcases (hmem j).1 hj with hj | rfl
    · exact h.known j hj
    · exact ⟨stage, hstage⟩
  · intro j hj
    rcases (hmem j).1 hj with hj | rfl
    · exact hdeparted j (h.flying j hj)
    · exact hself
  · intro j a ha has
    rw [State.run_launch, hset] at ha
    split at ha
    · rename_i hj
      exact (hmem j).2 (.inr hj)
    · exact (hmem j).2 (.inl (h.running j a ha has))
  · intro group j
    rw [State.locks_launch, holder_of_lock? hlock, h.locked, hmem]
    constructor
    · rintro (⟨hj, hgroup⟩ | ⟨rfl, hgroup⟩)
      · exact ⟨.inl hj, hgroup⟩
      · exact ⟨.inr rfl, stage, hstage, hgroup⟩
    · rintro ⟨hj | rfl, stage', hstage', hgroup⟩
      · exact .inl ⟨hj, stage', hstage', hgroup⟩
      · rw [hstage] at hstage'
        cases hstage'
        exact .inr ⟨rfl, hgroup⟩
  · rw [State.starts_launch]
    refine List.nodup_cons.2 ⟨fun hj => ?_, h.once⟩
    obtain ⟨a, ha, has⟩ := h.started i hj
    rw [ho] at ha
    cases ha
    rw [hwaits] at has
    cases has
  · intro j hj
    rw [State.starts_launch] at hj
    rcases List.mem_cons.1 hj with rfl | hj
    · exact hself
    · exact hdeparted j (h.started j hj)

theorem move (h : Traffic u s) (hm : Move u env s s') : Traffic u s' := by
  have hmove := hm
  cases hm with
  | enqueue ho hstage hs hdeps hgate =>
    exact h.of_still hmove rfl rfl
      (fun _ _ => Iff.rfl) fun j a ha has =>
        (Run.outcome?_of_setOutcome ho (by simp) ha has).1
  | launch ho hstage hs hroom hlock hprep => exact h.launch ho hstage hs hroom hlock
  | @unready i stage o locks e ho hstage hs hlock hprep =>
    have hi : i ∉ s.flights := h.not_mem_flights ho (by rw [hs]; rfl)
    refine h.of_still hmove rfl rfl ?_
      fun j a ha has => (Run.outcome?_of_setOutcome ho (by simp) ha has).1
    intro group j
    rw [State.locks_conclude, holder_release, holder_of_lock? hlock]
    constructor
    · rintro ⟨hj | ⟨hj, _⟩, hne⟩
      · exact hj
      · exact absurd hj hne
    · intro hj
      refine ⟨.inl hj, ?_⟩
      rintro rfl
      exact hi ((h.locked group j).1 hj).1
  | conclude ho hstage hend =>
    exact h.of_still hmove rfl rfl
      (fun _ _ => Iff.rfl) fun j a ha has =>
        (Run.outcome?_of_setOutcome ho (ne_running_of_isTerminal hend.isTerminal) ha has).1
  | @finish i stage o c result store ho hstage hs hc hi hans hstore =>
    refine h.of_land (i := i) hmove rfl rfl rfl ?_
    intro j a ha has
    refine Run.outcome?_of_setOutcome ho (ne_running_of_isTerminal ?_) ha has
    exact Outcome.close_isTerminal ..
  | @drop c hc hdrop =>
    refine h.of_land (i := c.stage) hmove rfl rfl rfl ?_
    intro j a ha has
    refine ⟨ha, ?_⟩
    rintro rfl
    obtain ⟨stage, hstage⟩ := h.known c.stage (List.mem_map_of_mem hc)
    exact hdrop a stage ha hstage has
  | signal =>
    exact h.of_still hmove rfl s.flights_fireSignals (fun _ _ => Iff.rfl)
      fun _ _ ha _ => ha
  | ask henv =>
    exact h.of_still hmove rfl rfl (fun _ _ => Iff.rfl) fun _ _ ha _ => ha
  | wake hnow =>
    exact h.of_still hmove rfl rfl (fun _ _ => Iff.rfl)
      fun _ _ ha _ => ha

end Traffic

theorem Reachable.traffic {x : Point} (h : Reachable u env x) : Traffic u x.state :=
  h.induct (Traffic u) (traffic_start u) fun _ _ ht hm => ht.move hm

/-! ## Exclusion -/

theorem Setup.one_le_workers (u : Setup) : 1 ≤ u.workers := Nat.le_max_left _ _

/-- Between any two steps of any run, a group is held exactly by the stage
in flight that has it, whatever has become of that stage. So two commands in flight never share
a group. There are no more commands in flight than workers: as many as the option of the run says,
else the setting, else the host, and one at least. -/
theorem locks_follow_commands {x : Point} (hx : Reachable u env x) :
    (∀ group i, x.state.locks.holder group = some i ↔ i ∈ x.state.flights ∧
      ∃ stage, u.stage? i = some stage ∧ stage.concurrencyGroup = some group) ∧
    (∀ c ∈ x.state.inFlight, ∀ d ∈ x.state.inFlight, ∀ a b group,
      u.stage? c.stage = some a → a.concurrencyGroup = some group →
      u.stage? d.stage = some b → b.concurrencyGroup = some group → c = d) ∧
    x.state.inFlight.length ≤ workers u.maxParallel u.pipeline.settings u.hostWorkers ∧
    1 ≤ workers u.maxParallel u.pipeline.settings u.hostWorkers := by
  have ht := hx.traffic
  refine ⟨ht.locked, ?_, ?_, u.one_le_workers⟩
  · intro c hc d hd a b group ha hag hb hbg
    have hcf : c.stage ∈ x.state.flights := List.mem_map_of_mem hc
    have hdf : d.stage ∈ x.state.flights := List.mem_map_of_mem hd
    have hcl := (ht.locked group c.stage).2 ⟨hcf, a, ha, hag⟩
    have hdl := (ht.locked group d.stage).2 ⟨hdf, b, hb, hbg⟩
    rw [hcl] at hdl
    exact List.inj_on_of_nodup_map ht.single hc hd (Option.some.inj hdl)
  · have hstaffed : x.state.inFlight.length ≤ u.workers := by
      simpa [State.flights] using ht.staffed
    exact hstaffed

/-- Two stages of the group `cluster`, and a stage whose failure aborts the first of them. -/
def clusterSetup : Setup where
  pipeline :=
    { name := "p"
      settings := { failFast := true }
      stages :=
        [ { name := "deploy", run := .script "deploy", concurrencyGroup := some "cluster" },
          { name := "unit", run := .script "test" },
          { name := "rollback", run := .script "undo", dependsOn := ["deploy"],
            onFailure := .always, concurrencyGroup := some "cluster" } ] }
  graph :=
    { names := ["deploy", "unit", "rollback"]
      places := .ofList [("deploy", 0), ("unit", 1), ("rollback", 2)]
      edges := [(0, 2)]
      predecessors := [[], [], [0]]
      successors := [[2], [], []] }
  trigger := default
  provider := fun _ => none
  maxParallel := some 3
  hostWorkers := 4
  runId := "r"

/-- The first stage was aborted and its command is still in flight: it keeps the group, and the
other stage of the group waits. -/
theorem locks_follow_commands_aborted :
    let started := left (settle clusterSetup (State.start clusterSetup))
    let failed := left (complete clusterSetup (started.wakeAt 1) 1 (.ok { exitCode := some 1 }))
    let s := left (settle clusterSetup failed)
    s.run.status? 0 = some .skipped ∧ s.run.status? 2 = some .queued ∧
      s.locks.holder "cluster" = some 0 := by
  intro started failed s
  let env : Environment := { answers := fun _ _ => True, cancels := False }
  have hstarted : settle clusterSetup (State.start clusterSetup) = .ok started :=
    eq_ok_left (by decide +kernel)
  have h₁ : Reachable clusterSetup env ⟨.waiting, started⟩ := Reachable.settled .refl hstarted
  obtain ⟨c, hc, hstage⟩ : ∃ c ∈ started.inFlight, c.stage = 1 := by decide +kernel
  have hclock : started.run.clock ≤ 1 := by decide +kernel
  have h₂ : Reachable clusterSetup env ⟨.head, failed⟩ :=
    h₁.joined ⟨c, hc, hstage, trivial⟩ hclock (eq_ok_left (by decide +kernel))
  have hs : settle clusterSetup failed = .ok s := eq_ok_left (by decide +kernel)
  have h₃ : Reachable clusterSetup env ⟨.waiting, s⟩ := h₂.settled hs
  have hheld : 0 ∈ s.flights := by decide +kernel
  have hgroup : ∃ stage, clusterSetup.stage? 0 = some stage ∧
      stage.concurrencyGroup = some "cluster" := ⟨_, rfl, rfl⟩
  refine ⟨by decide +kernel, by decide +kernel, ?_⟩
  clear_value s
  exact ((locks_follow_commands h₃).1 "cluster" 0).2 ⟨hheld, hgroup⟩

end Scheduler
end Conveyor
