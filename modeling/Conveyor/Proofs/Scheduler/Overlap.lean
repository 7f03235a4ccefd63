import Conveyor.Proofs.Scheduler.Completion
import Mathlib.Data.List.Chain

/-!
# Conveyor.Proofs.Scheduler.Overlap

Commands that outlive their stages.

A stage that ends by itself ends after its dependencies, and its command is done by then. A
fail-fast breaks both: it ends a waiting stage before its dependencies, and a running one before
its command. So a stage that is started may find a command of its dependencies in flight, but
only behind a stage that fell.

* `Fallen`    — a stage was skipped because another has failed.
* `Explained` — any other stage ended after its dependencies, and has no command in flight when
                it has ended.
* `Quelled`   — after a cancel no stage is left to be started.
* `overlap_only_after_fail_fast` — on every chain of dependencies from a stage that is started to
  a command in flight there is a stage that fell.
-/

namespace Conveyor
namespace Scheduler

variable {u : Setup} {env : Environment} {s s' : State} {i : Nat} {stage cause : Stage}
  {o o' : Outcome} {x y : Point}

/-! ## Stages that fell -/

/-- The stage was skipped because the cause has failed. -/
structure Fallen (u : Setup) (s : State) (i : Nat) (cause : Stage) : Prop where
  skipped : ∃ o, s.run.outcome? i = some o ∧ o.status = .skipped ∧
    o.skipReason = some (.failFast cause.name)
  failed : HasFailed u s cause

def Grouped (u : Setup) (i : Nat) (cause : Stage) : Prop :=
  ∃ stage group, u.stage? i = some stage ∧ stage.failFastGroup = some group ∧
    cause.failFastGroup = some group

theorem Fallen.move (h : Fallen u s i cause) (hm : Move u env s s') : Fallen u s' i cause := by
  obtain ⟨o, ho, hs, hreason⟩ := h.skipped
  exact ⟨⟨o, hm.kept ho (by rw [hs]; rfl), hs, hreason⟩, hm.hasFailed h.failed⟩

theorem Falls.cases {status : Status} (h : Falls u cause stage status)
    (hstage : u.stage? i = some stage) :
    u.pipeline.settings.failFast = true ∨
      Grouped u i cause ∧ (status = .pending ∨ status = .queued) := by
  rcases h with ⟨group, hcause, hfall⟩ | ⟨hff, _⟩
  · simp only [fallsWith, Bool.and_eq_true, Bool.or_eq_true, decide_eq_true_eq] at hfall
    exact .inr ⟨⟨stage, group, hstage, hfall.1.2, hcause⟩, hfall.1.1⟩
  · exact .inl hff

/-! ## Why a stage has ended -/

structure Explained (u : Setup) (s : State) : Prop where
  ended : ∀ i o, s.run.outcome? i = some o → o.status.isTerminal = true →
    (s.run.dependencies? i).isSome = true ∨
      (∃ cause, Fallen u s i cause ∧ (u.pipeline.settings.failFast = true ∨ Grouped u i cause)) ∨
      s.run.cancelled = true
  /-- A stage that has ended with its command in flight was aborted. -/
  flying : ∀ i ∈ s.flights, ∀ o, s.run.outcome? i = some o → o.status.isTerminal = true →
    (∃ cause, Fallen u s i cause ∧ u.pipeline.settings.failFast = true) ∨ s.run.cancelled = true

/-- A stage ends after its dependencies, unless it falls or is withdrawn. -/
theorem Life.ending (h : Life u env s i stage o o') (ha : Admitted u s)
    (ho : s.run.outcome? i = some o) (hs : o'.status.isTerminal = true) :
    (s.run.dependencies? i).isSome = true ∨
      (∃ cause, HasFailed u s cause ∧ Falls u cause stage o.status ∧
        o' = o.skip (.failFast cause.name) s.run.clock) ∨
      s.run.cancelled = true := by
  have hadmitted : o.status = .queued ∨ o.status = .running →
      (s.run.dependencies? i).isSome = true := by
    intro hs
    obtain ⟨_, deps, _, hdeps, _⟩ := ha i o ho hs
    rw [hdeps]
    rfl
  cases h with
  | enqueue | launch => cases hs
  | unready hq => exact .inl (hadmitted (.inl hq))
  | finish hr => exact .inl (hadmitted (.inr hr))
  | ends h =>
    cases h with
    | refuse _ hdeps | misgate _ hdeps =>
      rw [hdeps]
      exact .inl rfl
    | fall _ hcause hfall => exact .inr (.inl ⟨_, hcause, hfall, rfl⟩)
    | withdraw _ hc => exact .inr (.inr hc)

/-- A command in flight whose stage has ended had a stage that has ended, or that ends now
without its result. -/
theorem Move.flying (hm : Move u env s s') (ht : Traffic u s) (hi : i ∈ s'.flights)
    (ho : s'.run.outcome? i = some o) (hs : o.status.isTerminal = true) :
    (i ∈ s.flights ∧ s.run.outcome? i = some o) ∨
      ∃ stage a, s.run.outcome? i = some a ∧ u.stage? i = some stage ∧ a.status = .running ∧
        Ends u s i stage a o := by
  cases hm with
  | enqueue ha | launch ha =>
    have hset := Run.outcome?_setOutcome ha
    simp only [State.run_put, State.run_launch, hset] at ho
    split at ho
    · cases ho
      cases hs
    · rename_i hne
      simp only [State.flights_put, State.flights_launch, List.mem_append,
        List.mem_singleton, hne, or_false] at hi
      exact .inl ⟨hi, ho⟩
  | @unready j _ a _ _ ha _ hq =>
    have hj : j ∉ s.flights := ht.not_mem_flights ha (by rw [hq]; rfl)
    have hne : i ≠ j := by
      rintro rfl
      exact hj hi
    rw [State.run_conclude, Run.outcome?_setOutcome ha, if_neg hne] at ho
    exact .inl ⟨hi, ho⟩
  | @conclude j stage a b ha hstage hend =>
    rw [State.run_conclude, Run.outcome?_setOutcome ha] at ho
    split at ho
    · rename_i hij
      subst hij
      cases ho
      obtain ⟨a', ha', hw⟩ := ht.flying i hi
      rw [ha] at ha'
      cases ha'
      exact .inr ⟨stage, a, ha, hstage, Status.running_of_open hend.open_ hw, hend⟩
    · exact .inl ⟨hi, ho⟩
  | @finish j _ a _ _ _ ha =>
    have hi' : i ∈ (s.land j).flights := hi
    rw [State.flights_land, List.mem_filter, decide_eq_true_eq] at hi'
    obtain ⟨hi', hne⟩ := hi'
    have ho' : (s.run.setOutcome j _).outcome? i = some o := ho
    rw [Run.outcome?_setOutcome ha, if_neg hne] at ho'
    exact .inl ⟨hi', ho'⟩
  | drop =>
    rw [State.flights_land, List.mem_filter] at hi
    exact .inl ⟨hi.1, ho⟩
  | signal =>
    rw [State.flights_fireSignals] at hi
    exact .inl ⟨hi, ho⟩
  | ask | wake => exact .inl ⟨hi, ho⟩

theorem Move.fallen (hm : Move u env s s')
    (ho : s'.run.outcome? i = some (o.skip (.failFast cause.name) s.run.clock))
    (hcause : HasFailed u s cause) : Fallen u s' i cause :=
  ⟨⟨_, ho, rfl, rfl⟩, hm.hasFailed hcause⟩

theorem Explained.move (h : Explained u s) (ht : Traffic u s) (ha : Admitted u s)
    (hm : Move u env s s') : Explained u s' := by
  have hdeps : ∀ i, (s.run.dependencies? i).isSome = true →
      (s'.run.dependencies? i).isSome = true := by
    intro i hi
    obtain ⟨deps, hdeps⟩ := Option.isSome_iff_exists.1 hi
    rw [Run.dependencies?_mono hm.graph_eq (fun _ _ => hm.kept) hdeps]
    rfl
  constructor
  · intro i o' ho' hs'
    rcases hm.outcome? ho' with ho | ⟨stage, o, ho, hstage, hlife⟩
    · rcases h.ended i o' ho hs' with hi | ⟨cause, hfall, hwhy⟩ | hc
      · exact .inl (hdeps i hi)
      · exact .inr (.inl ⟨cause, hfall.move hm, hwhy⟩)
      · exact .inr (.inr (hm.cancelled hc))
    · rcases hlife.ending ha ho hs' with hi | ⟨cause, hcause, hfall, rfl⟩ | hc
      · exact .inl (hdeps i hi)
      · exact .inr (.inl ⟨cause, hm.fallen ho' hcause, (hfall.cases hstage).imp id And.left⟩)
      · exact .inr (.inr (hm.cancelled hc))
  · intro i hi o' ho' hs'
    rcases hm.flying ht hi ho' hs' with ⟨hi, ho⟩ | ⟨stage, o, ho, hstage, hrun, hend⟩
    · rcases h.flying i hi o' ho hs' with ⟨cause, hfall, hff⟩ | hc
      · exact .inl ⟨cause, hfall.move hm, hff⟩
      · exact .inr (hm.cancelled hc)
    · cases hend with
      | refuse hp | misgate hp =>
        rw [hrun] at hp
        cases hp
      | @fall cause _ hcause hfall =>
        rcases hfall.cases hstage with hff | ⟨_, hp | hq⟩
        · exact .inl ⟨cause, hm.fallen ho' hcause, hff⟩
        · rw [hrun] at hp
          cases hp
        · rw [hrun] at hq
          cases hq
      | withdraw _ hc => exact .inr (hm.cancelled hc)

theorem explained_start (u : Setup) : Explained u (State.start u) := by
  refine ⟨?_, nofun⟩
  intro i o ho hs
  obtain ⟨stage, _, rfl⟩ := outcome_of_start ho
  cases hs

theorem Reachable.explained (h : Reachable u env x) : Explained u x.state := by
  have h := h.induct (fun s => Traffic u s ∧ Admitted u s ∧ Explained u s)
    ⟨traffic_start u, admitted_start u, explained_start u⟩
    fun _ _ ⟨ht, ha, he⟩ hm => ⟨ht.move hm, ha.move hm, he.move ht ha hm⟩
  exact h.2.2

/-! ## What outlives a failure or a cancel -/

/-- When the run is cancelled, every stage has ended. -/
def Quelled (u : Setup) (s : State) : Prop :=
  s.run.cancelled = true → ∀ k ∈ u.order, ∀ stage o, u.stage? k = some stage →
    s.run.outcome? k = some o → o.status.isTerminal = true

theorem Quelled.of_moves (h : Quelled u s) (hm : Moves u env s s')
    (hc : s'.run.cancelled = s.run.cancelled) : Quelled u s' := by
  intro hcancelled k hk stage o hstage ho
  cases hs : o.status.isTerminal with
  | true => rfl
  | false =>
    obtain ⟨o', ho', hs'⟩ := hm.open_back ho hs
    rw [h (hc ▸ hcancelled) k hk stage o' hstage ho'] at hs'
    cases hs'

/-- Nothing is left that a failure could take along. -/
theorem Guarded.of_ended (h : ∀ k ∈ u.order, ∀ stage o, u.stage? k = some stage →
    s.run.outcome? k = some o → o.status.isTerminal = true) : Guarded u s := by
  intro _ _ _ k hk stage o hstage ho hs
  rw [h k hk stage o hstage ho] at hs
  cases hs

theorem Step.guarded (h : Step u env x y) (hx : Guarded u x.state) : Guarded u y.state := by
  cases h.effect with
  | settle _ hguard | launch _ _ _ _ hguard | land _ hguard => exact hguard hx
  | cancel _ hended => exact .of_ended hended

theorem Step.quelled (h : Step u env x y) (hx : Quelled u x.state) : Quelled u y.state := by
  have hmoves := moves_of_step h
  cases h.effect with
  | settle hstill | land hstill => exact hx.of_moves hmoves hstill.cancelled
  | launch _ _ _ hc => exact hx.of_moves hmoves hc
  | cancel _ hended => exact fun _ => hended

theorem Reachable.guarded (h : Reachable u env x) : Guarded u x.state := by
  induction h with
  | refl =>
    rintro _ _ ⟨j, o, _, ho, hs, _⟩
    obtain ⟨stage, _, rfl⟩ := outcome_of_start ho
    cases hs
  | tail _ hstep ih => exact hstep.guarded ih

theorem Reachable.quelled (h : Reachable u env x) : Quelled u x.state := by
  induction h with
  | refl => exact nofun
  | tail _ hstep ih => exact hstep.quelled ih

theorem Step.started (h : Step u env x y) (hi : y.state.starts = i :: x.state.starts) :
    ∃ o, x.state.run.outcome? i = some o ∧ o.status = .queued := by
  have hsame : y.state.starts ≠ x.state.starts := by
    rw [hi]
    exact List.cons_ne_self i _
  cases h.effect with
  | settle hstill | land hstill | cancel hstill => exact absurd hstill.starts hsame
  | launch ho hs hstarts =>
    rw [hi] at hstarts
    cases hstarts
    exact ⟨_, ho, hs⟩

/-! ## Overlap -/

/-- Following the dependencies of a stage whose dependencies have ended, one comes to a stage
that fell before one comes to a command in flight. -/
theorem Explained.fallen_of_chain (h : Explained u s) (hd : s.run.cancelled = false)
    (hneeds : ∀ i d, u.graph.Needs i d → (s.run.dependencies? i).isSome = true →
      ∃ o, s.run.outcome? d = some o ∧ o.status.isTerminal = true) {d : Nat}
    (hflight : d ∈ s.flights) : ∀ (path : List Nat) (i : Nat),
    (s.run.dependencies? i).isSome = true → (i :: path ++ [d]).IsChain u.graph.Needs →
      ∃ m ∈ path ++ [d], ∃ cause, Fallen u s m cause ∧
        (u.pipeline.settings.failFast = true ∨ m ∈ path ∧ Grouped u m cause) := by
  intro path
  induction path with
  | nil =>
    intro i hi hchain
    obtain ⟨o, ho, hs⟩ := hneeds i d (by simpa using hchain) hi
    rcases h.flying d hflight o ho hs with ⟨cause, hfall, hff⟩ | hc
    · exact ⟨d, by simp, cause, hfall, .inl hff⟩
    · rw [hd] at hc
      cases hc
  | cons m path ih =>
    intro i hi hchain
    obtain ⟨hneed, hrest⟩ := List.isChain_cons_cons.1 hchain
    obtain ⟨o, ho, hs⟩ := hneeds i m hneed hi
    rcases h.ended m o ho hs with hm | ⟨cause, hfall, hwhy⟩ | hc
    · obtain ⟨k, hk, cause, hfall, hwhy⟩ := ih m hm hrest
      refine ⟨k, List.mem_cons_of_mem m hk, cause, hfall, hwhy.imp id ?_⟩
      rintro ⟨hk, hgroup⟩
      exact ⟨List.mem_cons_of_mem m hk, hgroup⟩
    · refine ⟨m, List.mem_cons_self, cause, hfall, hwhy.imp id ?_⟩
      exact fun hgroup => ⟨List.mem_cons_self, hgroup⟩
    · rw [hd] at hc
      cases hc

/-- A command is started while that of a dependency is in flight, however many stages lie between
the two, only if one of these or the dependency itself was skipped because a stage has failed.
Either the whole run fails fast, and what is started runs whatever happens, or the skipped stage
lies between and has the fail-fast group of the one that has failed. -/
theorem overlap_only_after_fail_fast (hu : u.Accepted) (hx : Reachable u env x)
    (hxy : Step u env x y) (hi : u.stage? i = some stage)
    (hstarted : y.state.starts = i :: x.state.starts) {path : List Nat} {d : Nat}
    (hchain : (i :: path ++ [d]).IsChain u.graph.Needs) (hd : d ∈ x.state.flights) :
    ∃ m ∈ path ++ [d], ∃ cause, Fallen u x.state m cause ∧
      ((u.pipeline.settings.failFast = true ∧ stage.onFailure = .always) ∨
        (m ∈ path ∧ Grouped u m cause)) := by
  obtain ⟨o, ho, hs⟩ := hxy.started hstarted
  have hopen : o.status.isTerminal = false := by rw [hs]; rfl
  have horder : i ∈ u.order := hu.mem_order hi
  obtain ⟨_, deps, _, hdeps, _⟩ := hx.admitted i o ho (.inl hs)
  have hcancelled : x.state.run.cancelled = false := by
    cases hc : x.state.run.cancelled with
    | false => rfl
    | true =>
      rw [hx.quelled hc i horder stage o hi ho] at hopen
      cases hopen
  have hneeds : ∀ j k, u.graph.Needs j k → (x.state.run.dependencies? j).isSome = true →
      ∃ a, x.state.run.outcome? k = some a ∧ a.status.isTerminal = true := by
    intro j k hneed hknown
    refine Run.dependencies?_isSome.1 hknown k ?_
    rw [hx.titled.graph]
    exact Graph.mem_predecessorsOf.2 hneed
  obtain ⟨m, hm, cause, hfall, hwhy⟩ := hx.explained.fallen_of_chain hcancelled hneeds hd path i
    (by rw [hdeps]; rfl) hchain
  refine ⟨m, hm, cause, hfall, hwhy.imp ?_ id⟩
  intro hff
  exact ⟨hff, hx.guarded hff cause hfall.failed i horder stage o hi ho hopen⟩

/-- A stage whose command may linger, a stage whose failure aborts it, and one that runs after
the first whatever happens. -/
def lingerSetup : Setup where
  pipeline :=
    { name := "p"
      settings := { failFast := true }
      stages :=
        [ { name := "deploy", run := .script "deploy" },
          { name := "unit", run := .script "test" },
          { name := "rollback", run := .script "undo", dependsOn := ["deploy"],
            onFailure := .always } ] }
  graph :=
    { names := ["deploy", "unit", "rollback"]
      places := .ofList [("deploy", 0), ("unit", 1), ("rollback", 2)]
      edges := [(0, 2)]
      predecessors := [[], [], [0]]
      successors := [[2], [], []] }
  trigger := default
  provider := fun _ => none
  maxParallel := some 3
  hostWorkers := 4
  runId := "r"

/-- The last stage is started while the command of the first, its dependency, is in flight. -/
theorem overlap_only_after_fail_fast_linger : ∃ x y,
    Reachable lingerSetup freeEnvironment x ∧ Step lingerSetup freeEnvironment x y ∧
      y.state.starts = 2 :: x.state.starts ∧ [2, 0].IsChain lingerSetup.graph.Needs ∧
      0 ∈ x.state.flights ∧ ∃ cause, Fallen lingerSetup x.state 0 cause := by
  let started := left (settle lingerSetup (State.start lingerSetup))
  let failed := left (complete lingerSetup (started.wakeAt 1) 1 (.ok { exitCode := some 1 }))
  let s := (left (gateAll lingerSetup lingerSetup.order failed)).1
  let t := (left (dispatchOne lingerSetup s 2)).1
  have hu : lingerSetup.Accepted := ⟨rfl⟩
  have horder : lingerSetup.order = [0, 1, 2] := by decide +kernel
  have hstarted : settle lingerSetup (State.start lingerSetup) = .ok started :=
    eq_ok_left (by decide +kernel)
  have h₁ : Reachable lingerSetup freeEnvironment ⟨.waiting, started⟩ :=
    Reachable.settled .refl hstarted
  obtain ⟨c, hc, hstage⟩ : ∃ c ∈ started.inFlight, c.stage = 1 := by decide +kernel
  have hclock : started.run.clock ≤ 1 := by decide +kernel
  have h₂ : Reachable lingerSetup freeEnvironment ⟨.head, failed⟩ :=
    h₁.joined ⟨c, hc, hstage, fun _ h => by cases h⟩ hclock (eq_ok_left (by decide +kernel))
  have hgated : gateAll lingerSetup lingerSetup.order failed = .ok (s, true) := by
    have hb : (left (gateAll lingerSetup lingerSetup.order failed)).2 = true := by decide +kernel
    rw [eq_ok_left (by decide +kernel : (gateAll lingerSetup _ failed).toBool = true), ← hb]
  have h₃ : Reachable lingerSetup freeEnvironment ⟨.dispatching [0, 1, 2] true, s⟩ := by
    rw [← horder]
    exact (Relation.ReflTransGen.trans (h₂.tail .begin) (steps_of_gateAll hgated)).tail .gated
  -- the first two stages have ended, so they are passed over
  have hroom : s.inFlight.length < lingerSetup.workers := by decide +kernel
  have hended : ∀ i ∈ [0, 1], ¬ Startable lingerSetup s i := by
    intro i hi h
    have hne : ∀ i ∈ [0, 1], s.run.status? i ≠ some .queued := by decide +kernel
    exact hne i hi h.queued
  have h₄ : Reachable lingerSetup freeEnvironment ⟨.dispatching [2] true, s⟩ :=
    (h₃.tail (.dispatch hroom (dispatchOne_idle (hended 0 (by simp))))).tail
      (.dispatch hroom (dispatchOne_idle (hended 1 (by simp))))
  have hlaunched : dispatchOne lingerSetup s 2 = .ok (t, true) := by
    have hb : (left (dispatchOne lingerSetup s 2)).2 = true := by decide +kernel
    rw [eq_ok_left (by decide +kernel : (dispatchOne lingerSetup s 2).toBool = true), ← hb]
  have hstarts : t.starts = 2 :: s.starts := by decide +kernel
  have hflight : 0 ∈ s.flights := by decide +kernel
  have hchain : [2, 0].IsChain lingerSetup.graph.Needs := by
    simp [Graph.Needs, lingerSetup, Graph.predecessorsOf, Links.row]
  clear_value t s
  have hstep : Step lingerSetup freeEnvironment ⟨.dispatching [2] true, s⟩
    ⟨.dispatching [] true, t⟩ := .dispatch hroom hlaunched
  obtain ⟨m, hm, cause, hfall, _⟩ :=
    @overlap_only_after_fail_fast _ _ _ _ _ _ hu h₄ hstep rfl hstarts [] 0 hchain hflight
  rw [List.nil_append, List.mem_singleton] at hm
  exact ⟨_, _, h₄, hstep, hstarts, hchain, hflight, cause, hm ▸ hfall⟩

end Scheduler
end Conveyor
