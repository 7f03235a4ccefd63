import Conveyor.Proofs.Scheduler.Overlap

/-!
# Conveyor.Proofs.Scheduler.Starts

Why a command was started.

The gate of a stage is asked when the stage is queued, and its command may be started much later,
after other stages have failed, were aborted or were cancelled. What the gate was told is still
true then, and stays true to the end of the run: a stage is queued only after its dependencies
have ended, and the outcome of a stage that has ended never changes.

* `Warranted`            — the gate let in what was started, and did not refuse what ended with a
                           result of its own.
* `Outcome.Blocks`       — a dependent that propagates failures cannot run after this outcome.
* `starts_are_justified` — a command is started on outcomes that are final and that its gate
  allows; behind an outcome that blocks, nothing that propagates failures is ever started.
-/

namespace Conveyor

/-! ## Outcomes that block -/

/-- A dependent that propagates failures is not run after this outcome. -/
def Outcome.Blocks (o : Outcome) : Prop :=
  o.status = .skipped ∨ o.status = .failed ∧ o.optional = false

theorem Outcome.Blocks.asDependency {o : Outcome} (h : o.Blocks) :
    ∃ dep, o.asDependency = some dep ∧ dep.satisfies = false := by
  rcases h with hs | ⟨hs, hopt⟩
  · exact ⟨.skipped, by simp only [Outcome.asDependency, hs], rfl⟩
  · exact ⟨.failed false, by simp only [Outcome.asDependency, hs, hopt], rfl⟩

theorem Gate.decide_of_blocked {t : Trigger} {stage : Stage} {deps : Dependencies} {name : String}
    {dep : DependencyOutcome} (hpolicy : stage.onFailure = .propagate)
    (hmem : (name, dep) ∈ deps) (hdep : dep.satisfies = false) :
    ∃ blocker, Gate.decide t stage deps = .ok (.skip (.dependencyNotSucceeded blocker)) := by
  have hstop : stoppedBy? stage deps ≠ none := by
    intro hnone
    have hsatisfies := stoppedBy?_eq_none_iff.1 hnone hpolicy _ hmem
    rw [hdep] at hsatisfies
    cases hsatisfies
  obtain ⟨blocker, hblocker⟩ := Option.ne_none_iff_exists'.1 hstop
  exact ⟨blocker, by rw [decide, hblocker]⟩

theorem Run.mem_dependencyOutcomes? {r : Run} {d : Nat} {o : Outcome} {dep : DependencyOutcome}
    (ho : r.outcome? d = some o) (hdep : o.asDependency = some dep) {l : List Nat}
    {deps : Dependencies} (h : r.dependencyOutcomes? l = some deps) (hd : d ∈ l) :
    (r.graph.name d, dep) ∈ deps := by
  rw [dependencyOutcomes?_eq h, List.mem_filterMap]
  exact ⟨d, hd, by rw [ho, Option.bind_some, hdep, Option.map_some]⟩

namespace Scheduler

variable {u : Setup} {env : Environment} {s s' : State} {i d : Nat} {stage : Stage}
  {o : Outcome} {x y z : Point}

/-! ## What a move starts -/

theorem mem_starts_iff : i ∈ s.starts ↔ ∃ request, .stageStarted i request ∈ s.notices := by
  rw [State.starts, List.mem_filterMap]
  constructor
  · rintro ⟨n, hn, hi⟩
    cases n with
    | stageStarted j request =>
      cases hi
      exact ⟨request, hn⟩
    | runStarted | stageFinished => cases hi
  · rintro ⟨request, hn⟩
    exact ⟨_, hn, rfl⟩

/-- A move starts one command at most, and that of a queued stage. -/
theorem Move.starts (h : Move u env s s') : s'.starts = s.starts ∨
    ∃ i o, s.run.outcome? i = some o ∧ o.status = .queued ∧ s'.starts = i :: s.starts := by
  cases h with
  | launch ho _ hs => exact .inr ⟨_, _, ho, hs, State.starts_launch ..⟩
  | _ => exact .inl rfl

theorem Move.dependencies? {deps : Dependencies} (h : Move u env s s')
    (hdeps : s.run.dependencies? i = some deps) : s'.run.dependencies? i = some deps :=
  Run.dependencies?_mono h.graph_eq (fun _ _ => h.kept) hdeps

theorem Moves.dependencies? {deps : Dependencies} (h : Moves u env s s')
    (hdeps : s.run.dependencies? i = some deps) : s'.run.dependencies? i = some deps := by
  induction h with
  | refl => exact hdeps
  | tail _ hm ih => exact hm.dependencies? ih

/-! ## Warrants -/

/-- The dependencies of the stage have ended, and its gate does not refuse it. -/
def Unrefused (u : Setup) (run : Run) (i : Nat) : Prop :=
  ∃ stage deps, u.stage? i = some stage ∧ run.dependencies? i = some deps ∧
    ∀ reason, Gate.decide u.trigger stage deps ≠ .ok (.skip reason)

theorem Allowed.unrefused (h : Allowed u s.run i) : Unrefused u s.run i := by
  obtain ⟨stage, deps, hstage, hdeps, hgate⟩ := h
  exact ⟨stage, deps, hstage, hdeps, fun reason => by rw [hgate]; nofun⟩

theorem Unrefused.move (h : Unrefused u s.run i) (hm : Move u env s s') :
    Unrefused u s'.run i := by
  obtain ⟨stage, deps, hstage, hdeps, hgate⟩ := h
  exact ⟨stage, deps, hstage, hm.dependencies? hdeps, hgate⟩

structure Warranted (u : Setup) (s : State) : Prop where
  started : ∀ i ∈ s.starts, Allowed u s.run i
  judged : ∀ i o, s.run.outcome? i = some o → o.status = .succeeded ∨ o.status = .failed →
    Unrefused u s.run i

theorem warranted_start (u : Setup) : Warranted u (State.start u) := by
  refine ⟨nofun, ?_⟩
  intro i o ho hs
  obtain ⟨stage, _, rfl⟩ := outcome_of_start ho
  rcases hs with hs | hs <;> cases hs

theorem Warranted.move (h : Warranted u s) (ha : Admitted u s) (hm : Move u env s s') :
    Warranted u s' := by
  constructor
  · intro i hi
    rcases hm.starts with hsame | ⟨j, o, ho, hs, hstarts⟩
    · rw [hsame] at hi
      exact (h.started i hi).move hm
    · rw [hstarts] at hi
      rcases List.mem_cons.1 hi with rfl | hi
      · exact (ha i o ho (.inl hs)).move hm
      · exact (h.started i hi).move hm
  · intro i o' ho' hs'
    rcases hm.outcome? ho' with ho | ⟨stage, o, ho, hstage, hlife⟩
    · exact (h.judged i o' ho hs').move hm
    · refine Unrefused.move ?_ hm
      cases hlife with
      | enqueue | launch => rcases hs' with hs' | hs' <;> cases hs'
      | unready hq => exact (ha i o ho (.inl hq)).unrefused
      | finish hr => exact (ha i o ho (.inr hr)).unrefused
      | ends hend =>
        cases hend with
        | misgate _ hdeps hgate =>
          exact ⟨stage, _, hstage, hdeps, fun reason => by rw [hgate]; nofun⟩
        | refuse | fall | withdraw => rcases hs' with hs' | hs' <;> cases hs'

theorem Reachable.warranted (h : Reachable u env x) : Warranted u x.state :=
  (h.induct (fun s => Admitted u s ∧ Warranted u s) ⟨admitted_start u, warranted_start u⟩
    fun _ _ ⟨ha, hw⟩ hm => ⟨ha.move hm, hw.move ha hm⟩).2

/-! ## The step that starts a command -/

theorem Step.starts_eq (h : Step u env x y) (hi : i ∈ y.state.starts)
    (hnew : i ∉ x.state.starts) : y.state.starts = i :: x.state.starts := by
  cases h.effect with
  | settle hstill | land hstill | cancel hstill =>
    rw [hstill.starts] at hi
    exact absurd hi hnew
  | launch _ _ hstarts =>
    rw [hstarts] at hi ⊢
    rcases List.mem_cons.1 hi with rfl | hi
    · rfl
    · exact absurd hi hnew

/-- The driver passes over stages that are not queued. -/
theorem Reachable.passed {p : Bool} {rest : List Nat} : ∀ {l : List Nat},
    Reachable u env ⟨.dispatching (l ++ rest) p, s⟩ → s.inFlight.length < u.workers →
      (∀ i ∈ l, s.run.status? i ≠ some .queued) → Reachable u env ⟨.dispatching rest p, s⟩ := by
  intro l
  induction l with
  | nil => intro h _ _; exact h
  | cons i l ih =>
    intro h hroom hidle
    have hi : ¬ Startable u s i := fun hs => hidle i List.mem_cons_self hs.queued
    have hstep := h.tail (.dispatch hroom (dispatchOne_idle hi))
    rw [Bool.or_false] at hstep
    exact ih hstep hroom fun j hj => hidle j (List.mem_cons_of_mem i hj)

/-! ## Behind a stage that blocks -/

theorem Unrefused.dependency_ended (h : Unrefused u s.run i) (ht : Titled u s)
    (hneed : u.graph.Needs i d) :
    ∃ o, s.run.outcome? d = some o ∧ o.status.isTerminal = true := by
  obtain ⟨_, deps, _, hdeps, _⟩ := h
  refine Run.dependencies?_isSome.1 (by rw [hdeps]; rfl) d ?_
  rw [ht.graph]
  exact Graph.mem_predecessorsOf.2 hneed

theorem not_unrefused_of_blocked (ht : Titled u s)
    (hpolicy : ∃ stage, u.stage? i = some stage ∧ stage.onFailure = .propagate)
    (hneed : u.graph.Needs i d) (ho : s.run.outcome? d = some o) (hblocks : o.Blocks) :
    ¬ Unrefused u s.run i := by
  rintro ⟨stage', deps, hstage', hdeps, hgate⟩
  obtain ⟨stage, hstage, hpropagate⟩ := hpolicy
  rw [hstage] at hstage'
  cases hstage'
  obtain ⟨dep, hdep, hsat⟩ := hblocks.asDependency
  have hd : d ∈ s.run.graph.predecessorsOf i := by
    rw [ht.graph]
    exact Graph.mem_predecessorsOf.2 hneed
  obtain ⟨blocker, hblocker⟩ :=
    Gate.decide_of_blocked hpropagate (Run.mem_dependencyOutcomes? ho hdep hdeps hd) hsat
  exact hgate _ hblocker

theorem Warranted.skipped_of_ended (h : Warranted u s) (ho : s.run.outcome? i = some o)
    (hs : o.status.isTerminal = true) (hrefused : ¬ Unrefused u s.run i) :
    o.status = .skipped := by
  cases hstatus : o.status with
  | skipped => rfl
  | succeeded => exact absurd (h.judged i o ho (.inl hstatus)) hrefused
  | failed => exact absurd (h.judged i o ho (.inr hstatus)) hrefused
  | pending | queued | running =>
    rw [hstatus] at hs
    cases hs

/-- The stages of a chain block one another: the one before a stage that blocks is refused, so if
it has ended it was skipped, and blocks in turn. -/
theorem not_unrefused_of_chain (ht : Titled u s) (hw : Warranted u s)
    (ho : s.run.outcome? d = some o) (hblocks : o.Blocks) :
    ∀ (path : List Nat) (i : Nat), (i :: path ++ [d]).IsChain u.graph.Needs →
      (∀ k ∈ i :: path, ∃ stage, u.stage? k = some stage ∧ stage.onFailure = .propagate) →
        ∀ k ∈ i :: path, ¬ Unrefused u s.run k := by
  intro path
  induction path with
  | nil =>
    intro i hchain hpolicies k hk
    obtain rfl := List.mem_singleton.1 hk
    exact not_unrefused_of_blocked ht (hpolicies k hk) (by simpa using hchain) ho hblocks
  | cons m path ih =>
    intro i hchain hpolicies k hk
    obtain ⟨hneed, hrest⟩ := List.isChain_cons_cons.1 hchain
    have hlater := ih m hrest fun k hk => hpolicies k (List.mem_cons_of_mem i hk)
    rcases List.mem_cons.1 hk with rfl | hk
    · intro hlet
      obtain ⟨a, ha, hs⟩ := hlet.dependency_ended ht hneed
      have hskipped := hw.skipped_of_ended ha hs (hlater m List.mem_cons_self)
      exact not_unrefused_of_blocked ht (hpolicies k List.mem_cons_self) hneed ha
        (.inl hskipped) hlet
    · exact hlater k hk

/-! ## Starts -/

/-- Whenever a command is started, the dependencies of its stage have ended, the gate of the stage
lets it in on their outcomes, and all this is as true in every later state, the last included.
So no stage is ever started from which a chain of dependencies, all of which propagate failures,
leads to a stage that is skipped or that fails and must not: in no state have both happened. -/
theorem starts_are_justified :
    (∀ x y i, Reachable u env x → Step u env x y → i ∈ y.state.starts → i ∉ x.state.starts →
      ∃ stage deps, u.stage? i = some stage ∧ x.state.run.dependencies? i = some deps ∧
        Gate.decide u.trigger stage deps = .ok .allow ∧
        (∀ d, u.graph.Needs i d → ∃ o, x.state.run.outcome? d = some o ∧
          o.status.isTerminal = true ∧ ∀ z, Steps u env y z → z.state.run.outcome? d = some o) ∧
        ∀ z, Steps u env y z → z.state.run.dependencies? i = some deps) ∧
    ∀ z i path d o, Reachable u env z → (i :: path ++ [d]).IsChain u.graph.Needs →
      (∀ k ∈ i :: path, ∃ stage, u.stage? k = some stage ∧ stage.onFailure = .propagate) →
      z.state.run.outcome? d = some o → o.Blocks → ∀ k ∈ i :: path, k ∉ z.state.starts := by
  constructor
  · intro x y i hx hxy hi hnew
    obtain ⟨o, ho, hs⟩ := hxy.started (hxy.starts_eq hi hnew)
    obtain ⟨stage, deps, hstage, hdeps, hgate⟩ := hx.admitted i o ho (.inl hs)
    have hlater : ∀ z, Steps u env y z → Moves u env x.state z.state :=
      fun z hz => moves_of_steps (.head hxy hz)
    refine ⟨stage, deps, hstage, hdeps, hgate, ?_, fun z hz => (hlater z hz).dependencies? hdeps⟩
    intro d hneed
    have hlet : Unrefused u x.state.run i := (hx.admitted i o ho (.inl hs)).unrefused
    obtain ⟨a, ha, has⟩ := hlet.dependency_ended hx.titled hneed
    exact ⟨a, ha, has, fun z hz => (hlater z hz).kept ha has⟩
  · intro z i path d o hz hchain hpolicies ho hblocks k hk hstarted
    exact not_unrefused_of_chain hz.titled hz.warranted ho hblocks path i hchain hpolicies k hk
      (hz.warranted.started k hstarted).unrefused

/-- A stage that fails, two that would run one after the other behind it, and one that runs after
them whatever happens. -/
def brokenBuildSetup : Setup where
  pipeline :=
    { name := "p"
      stages :=
        [ { name := "build", run := .script "make" },
          { name := "test", run := .script "test", dependsOn := ["build"] },
          { name := "publish", run := .script "push", dependsOn := ["test"] },
          { name := "report", run := .script "mail", dependsOn := ["publish"],
            onFailure := .always } ] }
  graph :=
    { names := ["build", "test", "publish", "report"]
      places := .ofList [("build", 0), ("test", 1), ("publish", 2), ("report", 3)]
      edges := [(0, 1), (1, 2), (2, 3)]
      predecessors := [[], [0], [1], [2]]
      successors := [[1], [2], [3], []] }
  trigger := default
  provider := fun _ => none
  maxParallel := some 1
  hostWorkers := 4
  runId := "r"

/-- The last stage is started after one that was skipped, and the two behind the first stage are
not started. -/
theorem starts_are_justified_broken_build : ∃ x y z run,
    Reachable brokenBuildSetup freeEnvironment x ∧ Step brokenBuildSetup freeEnvironment x y ∧
      3 ∈ y.state.starts ∧ 3 ∉ x.state.starts ∧
      (∃ stage, brokenBuildSetup.stage? 3 = some stage ∧ ∃ deps,
        x.state.run.dependencies? 3 = some deps ∧
          Gate.decide brokenBuildSetup.trigger stage deps = .ok .allow) ∧
      Reachable brokenBuildSetup freeEnvironment z ∧
      Returns brokenBuildSetup freeEnvironment z (.ok run) ∧
      run.status? 0 = some .failed ∧ 2 ∉ z.state.starts ∧ 1 ∉ z.state.starts := by
  let started := left (settle brokenBuildSetup (State.start brokenBuildSetup))
  let failed := left (complete brokenBuildSetup (started.wakeAt 1) 0 (.ok { exitCode := some 1 }))
  let s := (left (gateAll brokenBuildSetup brokenBuildSetup.order failed)).1
  let t := (left (dispatchOne brokenBuildSetup s 3)).1
  let settled := left (settle brokenBuildSetup failed)
  let reported := left (complete brokenBuildSetup (settled.wakeAt 2) 3 (.ok { exitCode := some 0 }))
  let final := left (settle brokenBuildSetup reported)
  have horder : brokenBuildSetup.order = [0, 1, 2, 3] := by decide +kernel
  have h₁ : Reachable brokenBuildSetup freeEnvironment ⟨.waiting, started⟩ :=
    Reachable.settled .refl (eq_ok_left (by decide +kernel))
  obtain ⟨c, hc, hstage⟩ : ∃ c ∈ started.inFlight, c.stage = 0 := by decide +kernel
  have hclock : started.run.clock ≤ 1 := by decide +kernel
  have h₂ : Reachable brokenBuildSetup freeEnvironment ⟨.head, failed⟩ :=
    h₁.joined ⟨c, hc, hstage, fun _ h => by cases h⟩ hclock (eq_ok_left (by decide +kernel))
  have hgated : gateAll brokenBuildSetup brokenBuildSetup.order failed = .ok (s, true) := by
    have hb : (left (gateAll brokenBuildSetup brokenBuildSetup.order failed)).2 = true := by
      decide +kernel
    rw [eq_ok_left (by decide +kernel : (gateAll brokenBuildSetup _ failed).toBool = true), ← hb]
  have h₃ : Reachable brokenBuildSetup freeEnvironment ⟨.dispatching [0, 1, 2, 3] true, s⟩ := by
    rw [← horder]
    exact (Relation.ReflTransGen.trans (h₂.tail .begin) (steps_of_gateAll hgated)).tail .gated
  have hroom : s.inFlight.length < brokenBuildSetup.workers := by decide +kernel
  have h₄ : Reachable brokenBuildSetup freeEnvironment ⟨.dispatching [3] true, s⟩ :=
    h₃.passed (l := [0, 1, 2]) hroom (by decide +kernel)
  have hlaunched : dispatchOne brokenBuildSetup s 3 = .ok (t, true) := by
    have hb : (left (dispatchOne brokenBuildSetup s 3)).2 = true := by decide +kernel
    rw [eq_ok_left (by decide +kernel : (dispatchOne brokenBuildSetup s 3).toBool = true), ← hb]
  have hnew : 3 ∈ t.starts ∧ 3 ∉ s.starts := by decide +kernel
  -- the end of the same run
  have h₅ : Reachable brokenBuildSetup freeEnvironment ⟨.waiting, settled⟩ :=
    h₂.settled (eq_ok_left (by decide +kernel))
  obtain ⟨c', hc', hstage'⟩ : ∃ c ∈ settled.inFlight, c.stage = 3 := by decide +kernel
  have hclock' : settled.run.clock ≤ 2 := by decide +kernel
  have h₆ : Reachable brokenBuildSetup freeEnvironment ⟨.waiting, final⟩ :=
    (h₅.joined ⟨c', hc', hstage', fun _ h => by cases h⟩ hclock'
      (eq_ok_left (by decide +kernel))).settled (eq_ok_left (by decide +kernel))
  have hr : Returns brokenBuildSetup freeEnvironment ⟨.waiting, final⟩ (.ok final.run) :=
    .verdict (verdict?_idle (by decide +kernel) (by decide +kernel))
  have hstatus : final.run.status? 0 = some .failed := by decide +kernel
  have hoptional : (final.run.outcome? 0).map (·.optional) = some false := by decide +kernel
  have hpolicies : ∀ k ∈ [2, 1], ∃ stage, brokenBuildSetup.stage? k = some stage ∧
      stage.onFailure = .propagate := by simp [brokenBuildSetup, Setup.stage?]
  have hchain : [2, 1, 0].IsChain brokenBuildSetup.graph.Needs := by
    simp [Graph.Needs, brokenBuildSetup, Graph.predecessorsOf, Links.row]
  clear_value t s final
  obtain ⟨hstart, hchained⟩ := @starts_are_justified brokenBuildSetup freeEnvironment
  have hstep : Step brokenBuildSetup freeEnvironment ⟨.dispatching [3] true, s⟩
    ⟨.dispatching [] true, t⟩ := .dispatch hroom hlaunched
  obtain ⟨stage, deps, hstage₃, hdeps, hgate, _⟩ := hstart _ _ 3 h₄ hstep hnew.1 hnew.2
  obtain ⟨o, ho, hs⟩ := outcome?_of_status? hstatus
  have hblocks : o.Blocks := .inr ⟨hs, by simpa [ho] using hoptional⟩
  have hnever := hchained _ 2 [1] 0 o h₆ hchain hpolicies ho hblocks
  exact ⟨_, _, _, _, h₄, hstep, hnew.1, hnew.2, ⟨stage, hstage₃, deps, hdeps, hgate⟩, h₆, hr,
    hstatus, hnever 2 (by simp), hnever 1 (by simp)⟩

end Scheduler
end Conveyor
