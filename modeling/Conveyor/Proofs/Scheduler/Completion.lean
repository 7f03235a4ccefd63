import Conveyor.Proofs.Graph.Order
import Conveyor.Proofs.Scheduler.Exclusion
import Conveyor.Proofs.Scheduler.Ledger
import Mathlib.Data.Prod.Lex

/-!
# Conveyor.Proofs.Scheduler.Completion

Every run comes to a clean end.

Settling ends because every round that changes something takes a step from the life of a stage
(`settle_ok`). When it has ended, no stage can be gated and none can be started (`Quiet`). Then
nothing is stuck: of the stages that have not ended, one of least rank has only ended
dependencies, so it does not wait for its gate; and with no command in flight no group is held,
so it does not wait for its group either (`ended_of_quiet`).

A run ends because every step makes its point lighter (`weight`). A step that a stage can still
take weighs four: two pay for the command that it may start, one for the repetition of the round
in which it is taken. A command in flight and the cancel that may come weigh two each. A step of
the driver that changes nothing brings the end of the round nearer.

* `Clean`               — what is true of the end of a run, seen from one of its points.
* `every_run_completes` — it is true of every point of every run.
-/

namespace Conveyor
namespace Scheduler

variable {u : Setup} {env : Environment} {s s' : State} {i : Nat} {x y : Point}

/-! ## Settling -/

theorem lt_of_progress {k m n : Nat} {p q : Bool} (hmn : m ≤ n) (hp : p = true → m < n)
    (hkm : k ≤ m) (hq : q = true → k < m) (h : (p || q) = true) : k < n := by
  rcases Bool.or_eq_true_iff.1 h with h | h
  · have := hp h
    omega
  · have := hq h
    omega

theorem gateAll_ok (u : Setup) : ∀ (l : List Nat) (s : State), ∃ s' b,
    gateAll u l s = .ok (s', b) ∧ s'.run.stepsLeft ≤ s.run.stepsLeft ∧
      (b = true → s'.run.stepsLeft < s.run.stepsLeft) := by
  intro l
  induction l with
  | nil => intro s; exact ⟨s, false, rfl, Nat.le_refl _, nofun⟩
  | cons i rest ih =>
    intro s
    obtain ⟨mid, b, hmid, hgated⟩ := gateOne_ok ⟨fun _ _ => True, True⟩ u s i
    obtain ⟨s', b', hs', hle', hlt'⟩ := ih mid
    have hle := hgated.moves.stepsLeft_le
    refine ⟨s', b || b', ?_, Nat.le_trans hle' hle, lt_of_progress hle hgated.progress hle' hlt'⟩
    simp only [gateAll, hmid, hs']
    rfl

theorem dispatchAll_ok (u : Setup) : ∀ (l : List Nat) (s : State), ∃ s' b,
    dispatchAll u l s = .ok (s', b) ∧ s'.run.stepsLeft ≤ s.run.stepsLeft ∧
      (b = true → s'.run.stepsLeft < s.run.stepsLeft) := by
  intro l
  induction l with
  | nil => intro s; exact ⟨s, false, rfl, Nat.le_refl _, nofun⟩
  | cons i rest ih =>
    intro s
    by_cases hroom : s.inFlight.length < u.workers
    · obtain ⟨mid, b, hmid, hdispatched⟩ :=
        dispatchOne_ok ⟨fun _ _ => True, True⟩ u s i hroom
      obtain ⟨s', b', hs', hle', hlt'⟩ := ih mid
      have hle := hdispatched.moves.stepsLeft_le
      refine ⟨s', b || b', ?_, Nat.le_trans hle' hle,
        lt_of_progress hle hdispatched.progress hle' hlt'⟩
      simp only [dispatchAll, Nat.not_le_of_lt hroom, if_false, hmid, hs']
      rfl
    · refine ⟨s, false, ?_, Nat.le_refl _, nofun⟩
      simp only [dispatchAll, Nat.le_of_not_lt hroom, if_true]

theorem settleOnce_ok (u : Setup) (s : State) : ∃ s' b, settleOnce u s = .ok (s', b) ∧
    (b = true → s'.run.stepsLeft < s.run.stepsLeft) := by
  obtain ⟨mid, b, hmid, hle, hlt⟩ := gateAll_ok u u.order s
  obtain ⟨s', b', hs', hle', hlt'⟩ := dispatchAll_ok u u.order mid
  refine ⟨s', b || b', ?_, lt_of_progress hle hlt hle' hlt'⟩
  simp only [settleOnce, hmid, hs']
  rfl

/-- One round for every step that is left, and a last one that changes nothing. -/
theorem settleFrom_ok (u : Setup) : ∀ (fuel : Nat) (s : State), s.run.stepsLeft < fuel →
    ∃ s', settleFrom u fuel s = .ok s' := by
  intro fuel
  induction fuel with
  | zero => intro s h; omega
  | succ fuel ih =>
    intro s h
    obtain ⟨mid, b, hmid, hlt⟩ := settleOnce_ok u s
    cases b with
    | true =>
      obtain ⟨s', hs'⟩ := ih mid (by have := hlt rfl; omega)
      exact ⟨s', by simp only [settleFrom, hmid, hs']⟩
    | false => exact ⟨mid, by simp only [settleFrom, hmid]⟩

theorem Reachable.stepsLeft_le (h : Reachable u env x) :
    x.state.run.stepsLeft ≤ 3 * u.pipeline.stages.length := by
  have hle := (moves_of_steps h).stepsLeft_le
  rwa [State.start, Run.stepsLeft_start] at hle

theorem Reachable.settle_ok (h : Reachable u env x) : ∃ s', settle u x.state = .ok s' :=
  settleFrom_ok u _ _ (Nat.lt_succ_of_le h.stepsLeft_le)

/-! ## Quiet points -/

/-- What the rounds so far have shown: these stages can be neither gated nor started. -/
def Quiet (u : Setup) (x : Point) : Prop :=
  match x.place with
  | .head | .gating _ true | .dispatching _ true => True
  | .gating rest false => ∀ i ∈ u.order, i ∉ rest → ¬ Gatable u x.state i
  | .dispatching rest false =>
    (∀ i ∈ u.order, ¬ Gatable u x.state i) ∧
      ((∀ i ∈ u.order, i ∉ rest → ¬ Startable u x.state i) ∨
        u.workers ≤ x.state.inFlight.length)
  | .waiting =>
    (∀ i ∈ u.order, ¬ Gatable u x.state i) ∧
      ((∀ i ∈ u.order, ¬ Startable u x.state i) ∨ u.workers ≤ x.state.inFlight.length)

theorem Quiet.step (hx : Quiet u x) (h : Step u env x y) : Quiet u y := by
  cases h with
  | begin | again => exact fun i hi hrest => absurd hi hrest
  | @gate i rest p b s s' h =>
    have hgated := Gated.of_gateOne env h
    cases p <;> cases b
    · obtain ⟨rfl, hself⟩ := hgated.idle rfl
      intro j hj hrest
      by_cases hji : j = i
      · subst hji; exact hself
      · exact hx j hj (by simp [hji, hrest])
    · trivial
    · trivial
    · trivial
  | @gated p s =>
    cases p with
    | true => trivial
    | false => exact ⟨fun i hi => hx i hi (by simp), .inl fun i hi hrest => absurd hi hrest⟩
  | @dispatch i rest p b s s' hroom h =>
    have hdispatched := Dispatched.of_dispatchOne env hroom h
    cases p <;> cases b
    · obtain ⟨rfl, hself⟩ := hdispatched.idle rfl
      refine ⟨hx.1, hx.2.imp ?_ id⟩
      intro hstart j hj hrest
      by_cases hji : j = i
      · subst hji; exact hself
      · exact hstart j hj (by simp [hji, hrest])
    · trivial
    · trivial
    · trivial
  | @full i rest p s hfull =>
    cases p with
    | true => trivial
    | false => exact ⟨hx.1, .inr hfull⟩
  | settled => exact ⟨hx.1, hx.2.imp (fun h i hi => h i hi (by simp)) id⟩
  | join | cancelEarly | cancel => trivial

theorem Reachable.quiet (h : Reachable u env x) : Quiet u x := by
  induction h with
  | refl => trivial
  | tail _ hstep ih => exact ih.step hstep

/-! ## No stage is stuck -/

theorem Setup.Accepted.exists_rank (hu : u.Accepted) :
    ∃ rank : Nat → Nat, ∀ i d, u.graph.Needs i d → rank d < rank i :=
  Graph.exists_rank hu.describes.agrees
    (Graph.describes_of_ofStages (graph_of_ensureValid hu.valid)).2

theorem Setup.Accepted.ordered (hu : u.Accepted) : u.graph.Ordered := by
  obtain ⟨rank, hrank⟩ := hu.exists_rank
  exact Graph.ordered_of_rank hu.describes.agrees hrank

theorem Setup.Accepted.mem_order (hu : u.Accepted) {stage : Stage}
    (hstage : u.stage? i = some stage) : i ∈ u.order := by
  have hlt : i < u.pipeline.stages.length := (List.getElem?_eq_some_iff.1 hstage).1
  rw [Setup.order, hu.ordered.mem_iff, hu.describes.size_eq]
  exact hlt

theorem Traffic.holder_eq_none (h : Traffic u s) (hidle : s.inFlight = []) (group : String) :
    s.locks.holder group = none := by
  cases hg : s.locks.holder group with
  | none => rfl
  | some i =>
    have hi := ((h.locked group i).1 hg).1
    rw [State.flights, hidle] at hi
    cases hi

theorem lock?_isSome_of_free {locks : Locks} (h : ∀ group, locks.holder group = none) (i : Nat)
    (stage : Stage) : (lock? locks i stage).isSome = true := by
  rw [lock?]
  split
  · rfl
  · rename_i group _
    simp only [Locks.acquire?, h group]
    rfl

theorem ended_of_quiet (hu : u.Accepted) (ht : Titled u s) (htraffic : Traffic u s)
    (hquiet : Quiet u ⟨.waiting, s⟩) (hidle : s.inFlight = []) :
    ∀ i o, s.run.outcome? i = some o → o.status.isTerminal = true := by
  obtain ⟨rank, hrank⟩ := hu.exists_rank
  have hworker := u.one_le_workers
  obtain ⟨hgate, hstart⟩ := hquiet
  have hstart : ∀ i ∈ u.order, ¬ Startable u s i := by
    refine hstart.resolve_right ?_
    rw [hidle, List.length_nil]
    omega
  -- by the rank of the stage: its dependencies have ended
  have hrun : ∀ n i o, rank i = n → s.run.outcome? i = some o → o.status.isTerminal = true := by
    intro n
    induction n using Nat.strongRecOn with
    | _ n ih =>
      intro i o hn ho
      obtain ⟨stage, hstage, _⟩ := ht.named i o ho
      have hi : i ∈ u.order := hu.mem_order hstage
      have hst : s.run.status? i = some o.status := by rw [Run.status?, ho]; rfl
      cases hs : o.status with
      | pending =>
        refine absurd ⟨hs ▸ hst, Run.dependencies?_isSome.2 ?_, by rw [hstage]; rfl⟩ (hgate i hi)
        intro d hd
        rw [ht.graph, Graph.mem_predecessorsOf] at hd
        have hlt := hu.describes.lt_of_needed hd
        rw [hu.describes.size_eq] at hlt
        obtain ⟨a, ha⟩ := ht.present d _ (List.getElem?_eq_getElem hlt)
        exact ⟨a, ha, ih (rank d) (hn ▸ hrank i d hd) d a rfl ha⟩
      | queued =>
        have hfree := lock?_isSome_of_free (htraffic.holder_eq_none hidle) i stage
        exact absurd ⟨hs ▸ hst, stage, hstage, hfree⟩ (hstart i hi)
      | running =>
        have hflight := htraffic.running i o ho hs
        rw [State.flights, hidle] at hflight
        cases hflight
      | succeeded | failed | skipped => rfl
  intro i o ho
  exact hrun (rank i) i o rfl ho

theorem isComplete_of_ended {r : Run}
    (h : ∀ i o, r.outcome? i = some o → o.status.isTerminal = true) : r.isComplete = true := by
  rw [Run.isComplete, List.all_eq_true]
  intro o ho
  obtain ⟨i, hi⟩ := List.mem_iff_getElem?.1 ho
  exact h i o hi

/-- Where the driver waits for nothing, the run is complete and no group is held. -/
theorem Reachable.idle_complete (hu : u.Accepted) (h : Reachable u env ⟨.waiting, s⟩)
    (hidle : s.inFlight = []) : s.run.isComplete = true ∧ s.locks.held = 0 := by
  have htraffic : Traffic u s := h.traffic
  have hended := ended_of_quiet hu h.titled htraffic h.quiet hidle
  exact ⟨isComplete_of_ended hended, Locks.held_eq_zero (htraffic.holder_eq_none hidle)⟩

/-! ## What the driver returns -/

theorem verdict?_idle (h : s.inFlight = []) (hc : s.run.isComplete = true) :
    verdict? s = some (.ok s.run) := by
  simp only [verdict?, h, hc]
  rfl

/-- A result is applied without an error, if it is none that makes the run unusable. -/
theorem Reachable.joins (hu : u.Accepted) (hw : env.Harmless) (h : Reachable u env ⟨.waiting, s⟩)
    {c : InFlight} {result : Except Error CommandOutput} {now : Nat} (hc : c ∈ s.inFlight)
    (hans : env.answers c result) :
    ∃ s', complete u (s.wakeAt now) c.stage result = .ok s' := by
  have hc' : c ∈ (s.wakeAt now).inFlight := hc
  rcases complete_ok (u := u) hc' hans with ⟨s', hs', _⟩ | ⟨e, _, hfatal | hpublish⟩
  · exact ⟨s', hs'⟩
  · obtain ⟨rfl, hfatal⟩ := hfatal
    rw [hw c e hans] at hfatal
    cases hfatal
  · obtain ⟨o, stage, values, ho, hs, hstage, _, he⟩ := hpublish
    obtain ⟨store, hstore⟩ :=
      (h.ledger hu.describes).can_publish h.titled hu.describes hstage ho hs values
    exact absurd (hstore.symm.trans he) (by simp)

/-- The driver returns nothing but the run, complete, with nothing left behind. -/
theorem Reachable.returns_ok (hu : u.Accepted) (hw : env.Harmless) (h : Reachable u env x)
    {result : Except Error Run} (hr : Returns u env x result) :
    result = .ok x.state.run ∧ x.state.run.isComplete = true ∧ x.state.inFlight = [] ∧
      x.state.locks.held = 0 := by
  cases hr with
  | @gate i rest p s e he =>
    obtain ⟨s', b, hs', _⟩ := gateOne_ok env u s i
    rw [hs'] at he
    cases he
  | @dispatch i rest p s e hroom he =>
    obtain ⟨s', b, hs', _⟩ := dispatchOne_ok env u s i hroom
    rw [hs'] at he
    cases he
  | join hc hans hnow he =>
    obtain ⟨s', hs'⟩ := h.joins hu hw hc hans
    rw [hs'] at he
    cases he
  | @cancelEarly now s e henv hc hnow he | @cancel now s e henv hc _ hnow he =>
    obtain ⟨s', hs', _⟩ := cancel_ok env u (s.wakeAt now) hc
    rw [hs'] at he
    cases he
  | @verdict s result hv =>
    cases hf : s.inFlight with
    | nil =>
      obtain ⟨hcomplete, hheld⟩ := h.idle_complete hu hf
      rw [verdict?_idle hf hcomplete] at hv
      cases hv
      exact ⟨rfl, hcomplete, rfl, hheld⟩
    | cons c rest =>
      simp only [verdict?, hf] at hv
      cases hv

/-! ## Every run ends -/

/-- A round that has changed something will be repeated. -/
def Place.credit : Place → Nat
  | .gating _ true | .dispatching _ true => 1
  | _ => 0

/-- The steps from a place to the end of its round. -/
def Place.distance (n : Nat) : Place → Nat
  | .head => 2 * n + 4
  | .gating rest _ => n + rest.length + 3
  | .dispatching rest _ => rest.length + 1
  | .waiting => 0

namespace State

def cancelsLeft (s : State) : Nat := if s.run.cancelled then 0 else 1

/-- The weight of what the stages, the commands and the world around a run can still do. -/
def toGo (s : State) : Nat := 4 * s.run.stepsLeft + 2 * s.flights.length + 2 * s.cancelsLeft

end State

/-- What is left to do before the run ends, then before the round does. -/
def weight (u : Setup) (x : Point) : Nat ×ₗ Nat :=
  toLex (x.state.toGo + x.place.credit, x.place.distance u.order.length)

theorem weight_lt_of_toGo
    (h : y.state.toGo + y.place.credit < x.state.toGo + x.place.credit) :
    weight u y < weight u x :=
  Prod.Lex.toLex_lt_toLex.2 (.inl h)

theorem weight_lt_of_distance {p q : Place} (hcredit : p.credit = q.credit)
    (h : p.distance u.order.length < q.distance u.order.length) :
    weight u ⟨p, s⟩ < weight u ⟨q, s⟩ := by
  refine Prod.Lex.toLex_lt_toLex.2 (.inr ⟨?_, h⟩)
  rw [hcredit]

theorem Place.credit_le (p : Place) : p.credit ≤ 1 := by
  unfold Place.credit
  split <;> omega

theorem Moves.cancelsLeft_le (h : Moves u env s s') : s'.cancelsLeft ≤ s.cancelsLeft := by
  rw [State.cancelsLeft, State.cancelsLeft]
  cases hs : s.run.cancelled with
  | true => rw [h.cancelled hs]
  | false =>
    simp only [Bool.false_eq_true, if_false]
    split <;> simp

theorem length_flights_land {c : InFlight} (hc : c ∈ s.inFlight) :
    (s.land c.stage).flights.length < s.flights.length := by
  rw [State.flights_land]
  refine List.length_filter_lt_length_iff_exists.2 ⟨c.stage, List.mem_map_of_mem hc, ?_⟩
  simp

theorem weight_lt_of_step (h : Step u env x y) : weight u y < weight u x := by
  have hmoves := moves_of_step h
  have hsteps := hmoves.stepsLeft_le
  have hcancels := hmoves.cancelsLeft_le
  cases h with
  | begin =>
    refine weight_lt_of_distance rfl ?_
    simp only [Place.distance]
    omega
  | @gate i rest p b s s' h =>
    have hgated := Gated.of_gateOne env h
    cases b with
    | true =>
      have hlt := hgated.progress rfl
      have hcredit := Place.credit_le (.gating rest (p || true))
      apply weight_lt_of_toGo
      simp only [State.toGo, hgated.still.flights] at hsteps hcancels ⊢
      omega
    | false =>
      obtain ⟨rfl, _⟩ := hgated.idle rfl
      refine weight_lt_of_distance ?_ ?_
      · cases p <;> rfl
      · simp only [Place.distance, List.length_cons]
        omega
  | @gated p s =>
    refine weight_lt_of_distance ?_ ?_
    · cases p <;> rfl
    · simp only [Place.distance, List.length_nil]
      omega
  | @dispatch i rest p b s s' hroom h =>
    have hdispatched := Dispatched.of_dispatchOne env hroom h
    cases b with
    | true =>
      have hlt := hdispatched.progress rfl
      have hcredit := Place.credit_le (.dispatching rest (p || true))
      have hflights : s'.flights.length ≤ s.flights.length + 1 := by
        rcases hdispatched.launched with hstill | ⟨o, locks, request, _, _, rfl⟩
        · rw [hstill.flights]
          exact Nat.le_succ _
        · simp
      apply weight_lt_of_toGo
      simp only [State.toGo] at hsteps hcancels ⊢
      omega
    | false =>
      obtain ⟨rfl, _⟩ := hdispatched.idle rfl
      refine weight_lt_of_distance ?_ ?_
      · cases p <;> rfl
      · simp only [Place.distance, List.length_cons]
        omega
  | @full i rest p s _ =>
    refine weight_lt_of_distance ?_ ?_
    · cases p <;> rfl
    · simp only [Place.distance, List.length_nil, List.length_cons]
      omega
  | again => exact weight_lt_of_toGo (Nat.lt_succ_self _)
  | settled => exact weight_lt_of_distance rfl Nat.one_pos
  | @join c result now s s' hc hans hnow h =>
    have hc' : c ∈ (s.wakeAt now).inFlight := hc
    have hlen := length_flights_land hc'
    rw [← (Completed.of_complete hc' hans h).still.flights] at hlen
    have hsame : (s.wakeAt now).flights.length = s.flights.length := rfl
    apply weight_lt_of_toGo
    simp only [State.toGo, Place.credit] at hsteps hcancels ⊢
    omega
  | @cancelEarly now s s' henv hc hnow h | @cancel now s s' henv hc _ hnow h =>
    have hc' : (s.wakeAt now).run.cancelled = false := hc
    have hstill := (Withdrawn.of_cancel env hc' h).still
    have hflights : s'.flights = s.flights := hstill.flights
    have hold : s.cancelsLeft = 1 := by rw [State.cancelsLeft, hc]; rfl
    have hnew : s'.cancelsLeft = 0 := by rw [State.cancelsLeft, hstill.cancelled]; rfl
    apply weight_lt_of_toGo
    simp only [State.toGo, Place.credit, hflights, hold, hnew] at hsteps hcancels ⊢
    omega

/-- No run goes on for ever. -/
theorem step_wellFounded (u : Setup) (env : Environment) :
    WellFounded fun y x => Step u env x y :=
  Subrelation.wf weight_lt_of_step (InvImage.wf (weight u) wellFounded_lt)

/-! ## Clean runs -/

/-- What is true of the end of a run, seen from one of its points. -/
structure Clean (u : Setup) (env : Environment) (x : Point) : Prop where
  /-- Nothing is returned but the run: every stage has ended, no command is in flight and no
  group is held. -/
  returns : ∀ result, Returns u env x result → result = .ok x.state.run ∧
    x.state.run.isComplete = true ∧ x.state.inFlight = [] ∧ x.state.locks.held = 0
  /-- The rounds before the next wait come to an end. -/
  settles : x.place = .head → ∃ s', settle u x.state = .ok s' ∧ Reachable u env ⟨.waiting, s'⟩
  /-- The driver waits only where it means to. -/
  proceeds : x.place ≠ .waiting → ∃ y, Step u env x y
  /-- Whatever a command answers is applied. -/
  joins : x.place = .waiting → ∀ c ∈ x.state.inFlight, ∀ result, env.answers c result →
    ∀ now, x.state.run.clock ≤ now →
      ∃ s', complete u (x.state.wakeAt now) c.stage result = .ok s' ∧ Step u env x ⟨.head, s'⟩
  /-- When every command that was started is done, the run is returned. -/
  ends : x.place = .waiting → x.state.inFlight = [] → Returns u env x (.ok x.state.run)
  once : x.state.starts.Nodup

theorem exists_step (u : Setup) (env : Environment) (hx : x.place ≠ .waiting) :
    ∃ y, Step u env x y := by
  obtain ⟨place, s⟩ := x
  cases place with
  | head => exact ⟨_, .begin⟩
  | gating rest p =>
    cases rest with
    | nil => exact ⟨_, .gated⟩
    | cons i rest =>
      obtain ⟨s', b, hs', _⟩ := gateOne_ok env u s i
      exact ⟨_, .gate hs'⟩
  | dispatching rest p =>
    cases rest with
    | nil =>
      cases p with
      | true => exact ⟨_, .again⟩
      | false => exact ⟨_, .settled⟩
    | cons i rest =>
      by_cases hroom : s.inFlight.length < u.workers
      · obtain ⟨s', b, hs', _⟩ := dispatchOne_ok env u s i hroom
        exact ⟨_, .dispatch hroom hs'⟩
      · exact ⟨_, .full (Nat.le_of_not_lt hroom)⟩
  | waiting => exact absurd rfl hx

/-- Every run of a valid definition comes to a clean end, in whatever order its commands are done
and with whatever results, as long as none makes the run unusable, and whether or not it is
cancelled. -/
theorem every_run_completes (hu : u.Accepted) (hw : env.Harmless) :
    (WellFounded fun y x => Step u env x y) ∧ ∀ x, Reachable u env x → Clean u env x := by
  refine ⟨step_wellFounded u env, ?_⟩
  rintro ⟨place, s⟩ hx
  refine ⟨fun _ hr => hx.returns_ok hu hw hr, ?_, exists_step u env, ?_, ?_, hx.traffic.once⟩
  · rintro rfl
    obtain ⟨s', hs'⟩ := hx.settle_ok
    exact ⟨s', hs', hx.settled hs'⟩
  · rintro rfl c hc result hans now hnow
    obtain ⟨s', hs'⟩ := hx.joins hu hw hc hans
    exact ⟨s', hs', .join hc hans hnow hs'⟩
  · rintro rfl hidle
    exact .verdict (verdict?_idle hidle (hx.idle_complete hu hidle).1)

/-- Commands may answer with anything that is not fatal, and the run may be cancelled. -/
def freeEnvironment : Environment where
  answers _ result := ∀ e, result = .error e → e.isFatal = false
  cancels := True

/-- A run with two commands in flight, one of which a fail-fast would abort. -/
theorem every_run_completes_cluster :
    ∃ s, Reachable clusterSetup freeEnvironment ⟨.waiting, s⟩ ∧ s.flights = [0, 1] ∧
      Clean clusterSetup freeEnvironment ⟨.waiting, s⟩ := by
  have hu : clusterSetup.Accepted := ⟨rfl⟩
  have hw : freeEnvironment.Harmless := fun _ e h => h e rfl
  have hs : settle clusterSetup (State.start clusterSetup) =
      .ok (left (settle clusterSetup (State.start clusterSetup))) :=
    eq_ok_left (by decide +kernel)
  have hx : Reachable clusterSetup freeEnvironment ⟨.waiting, _⟩ := Reachable.settled .refl hs
  have hflights : (left (settle clusterSetup (State.start clusterSetup))).flights = [0, 1] := by
    decide +kernel
  exact ⟨_, hx, hflights, (every_run_completes hu hw).2 _ hx⟩

end Scheduler
end Conveyor
