import Conveyor.Progress
import Conveyor.Proofs.Scheduler.Starts
import Conveyor.Proofs.Scheduler.Aftermath
import Conveyor.Proofs.Scheduler.Skips

/-!
# Conveyor.Proofs.Scheduler.Notices

What an observer of a run is told.

A stage can come to its end in many ways: its gate refuses it or fails, it cannot be prepared, its
command is done, a failure takes it along or the run is cancelled. Each of them tells the observer
by itself. What is kept is one equation for each stage: the notices about it are the start of its
command, if that was started, and then its outcome, if it has ended (`Told`).

* `State.told`, `State.toldOf` — all that an observer was told, and what of it is about one stage.
* `Tells`             — what a move tells, with the outcome that it changes.
* `Told`, `Announced` — the invariant, for one stage and for all.
* `HasFlown`          — the command of a stage was in flight at some point on the way.
* `observers_see_each_stage_once` — every stage is told of once when it ends, before that once if
  its command was started, and the display counts the stages that have ended.
-/

namespace Conveyor
namespace Scheduler

variable {u : Setup} {env : Environment} {s s' : State} {i j : Nat} {stage : Stage}
  {o o' : Outcome} {x y z : Point} {n : Notice}

def Notice.stage? : Notice → Option Nat
  | .runStarted _ => none
  | .stageStarted i _ | .stageFinished i _ => some i

def Notice.isFinish : Notice → Bool
  | .stageFinished .. => true
  | .runStarted _ | .stageStarted .. => false

namespace State

/-- All that an observer was told, in order. The driver is told nothing of the start of the run,
which comes before it. -/
def told (u : Setup) (s : State) : List Notice :=
  .runStarted u.pipeline.stages.length :: s.notices.reverse

/-- What an observer was told of one stage, in order. -/
def toldOf (s : State) (i : Nat) : List Notice :=
  s.notices.reverse.filter fun n => n.stage? = some i

theorem toldOf_self (h : s'.notices = n :: s.notices) (hn : n.stage? = some i) :
    s'.toldOf i = s.toldOf i ++ [n] := by
  simp [toldOf, h, hn]

theorem toldOf_other (h : s'.notices = n :: s.notices) (hn : n.stage? = some i) (hj : j ≠ i) :
    s'.toldOf j = s.toldOf j := by
  simp [toldOf, h, hn, Ne.symm hj]

end State

/-! ## What a move tells -/

/-- What a move tells an observer, with the outcome that it changes. -/
inductive Tells (u : Setup) (s s' : State) : Prop where
  | nothing : s'.notices = s.notices → s'.run.outcomes = s.run.outcomes → Tells u s s'
  | queued {i : Nat} {o : Outcome} :
      s.run.outcome? i = some o → o.status = .pending → s'.notices = s.notices →
      s'.run.outcomes = (s.run.setOutcome i o.enqueue).outcomes → Tells u s s'
  | started {i : Nat} {stage : Stage} {o : Outcome} {request : CommandRequest} :
      s.run.outcome? i = some o → u.stage? i = some stage → o.status = .queued →
      request.stage = stage.name → s'.notices = .stageStarted i request :: s.notices →
      s'.run.outcomes = (s.run.setOutcome i (o.begin s.run.clock)).outcomes → Tells u s s'
  | finished {i : Nat} {o o' : Outcome} :
      s.run.outcome? i = some o → o.status.isTerminal = false → o'.status.isTerminal = true →
      s'.notices = .stageFinished i o' :: s.notices →
      s'.run.outcomes = (s.run.setOutcome i o').outcomes → Tells u s s'

theorem stage_of_prepare {request : CommandRequest} (h : prepare u s stage = .ok request) :
    request.stage = stage.name := by
  rw [prepare] at h
  split at h
  · cases h
  · split at h
    · cases h
    · cases h
      rfl

theorem Move.tells (h : Move u env s s') : Tells u s s' := by
  cases h with
  | enqueue ho _ hs => exact .queued ho hs rfl rfl
  | launch ho hstage hs _ _ hprep => exact .started ho hstage hs (stage_of_prepare hprep) rfl rfl
  | unready ho _ hs => exact .finished ho (by rw [hs]; rfl) rfl rfl rfl
  | conclude ho _ hend => exact .finished ho hend.open_ hend.isTerminal rfl rfl
  | finish ho _ hs =>
    exact .finished ho (by rw [hs]; rfl) (Outcome.close_isTerminal ..) rfl rfl
  | drop | signal | ask | wake => exact .nothing rfl rfl

/-! ## The notices about a stage -/

/-- An observer was told of the start of a stage, if there was one, and then of its end, if it has
ended. -/
structure Told (u : Setup) (s : State) (i : Nat) (o : Outcome) (start : Option CommandRequest) :
    Prop where
  told : s.toldOf i = start.toList.map (.stageStarted i) ++
    if o.status.isTerminal then [.stageFinished i o] else []
  waiting : o.status.waits = true → start = none
  named : ∀ request ∈ start, ∃ stage, u.stage? i = some stage ∧ request.stage = stage.name

/-- Every notice is about a stage, and all that is to be told of the stages was told. -/
structure Announced (u : Setup) (s : State) : Prop where
  known : ∀ n ∈ s.notices, ∃ i o, n.stage? = some i ∧ s.run.outcome? i = some o
  told : ∀ i o, s.run.outcome? i = some o → ∃ start, Told u s i o start

theorem announced_start (u : Setup) : Announced u (State.start u) := by
  refine ⟨fun n hn => absurd hn List.not_mem_nil, ?_⟩
  intro i o ho
  obtain ⟨stage, _, rfl⟩ := outcome_of_start ho
  exact ⟨none, rfl, fun _ => rfl, nofun⟩

namespace Announced

/-- The stages that a move does not concern. -/
theorem others (h : Announced u s) (ho : s.run.outcome? i = some o)
    (hset : s'.run.outcomes = (s.run.setOutcome i o').outcomes)
    (hnotices : ∀ j, j ≠ i → s'.toldOf j = s.toldOf j) (hself : ∃ start, Told u s' i o' start)
    (hknown : ∀ n ∈ s'.notices, n ∈ s.notices ∨ n.stage? = some i) : Announced u s' := by
  have houtcome : ∀ j, s'.run.outcome? j = if j = i then some o' else s.run.outcome? j := by
    intro j
    rw [← Run.outcome?_setOutcome ho]
    exact congrArg (·[j]?) hset
  constructor
  · intro n hn
    rcases hknown n hn with hold | hi
    · obtain ⟨j, a, hj, ha⟩ := h.known n hold
      by_cases hji : j = i
      · exact ⟨j, o', hj, by rw [houtcome, if_pos hji]⟩
      · exact ⟨j, a, hj, by rw [houtcome, if_neg hji, ha]⟩
    · exact ⟨i, o', hi, by rw [houtcome, if_pos rfl]⟩
  · intro j a ha
    rw [houtcome] at ha
    split at ha
    · rename_i hji
      cases ha
      rw [hji]
      exact hself
    · rename_i hji
      obtain ⟨start, htold⟩ := h.told j a ha
      exact ⟨start, (hnotices j hji).trans htold.told, htold.waiting, htold.named⟩

theorem move (h : Announced u s) (hm : Move u env s s') : Announced u s' := by
  cases hm.tells with
  | nothing hnotices hset =>
    have houtcome : ∀ i, s'.run.outcome? i = s.run.outcome? i := fun i => congrArg (·[i]?) hset
    constructor
    · intro n hn
      obtain ⟨i, o, hi, ho⟩ := h.known n (hnotices ▸ hn)
      exact ⟨i, o, hi, (houtcome i).trans ho⟩
    · intro i o ho
      obtain ⟨start, htold⟩ := h.told i o ((houtcome i).symm.trans ho)
      exact ⟨start, (by rw [State.toldOf, hnotices]; exact htold.told), htold.waiting, htold.named⟩
  | @queued i o ho hs hnotices hset =>
    have hsame : ∀ j, s'.toldOf j = s.toldOf j := fun j => by rw [State.toldOf, hnotices]; rfl
    obtain ⟨start, htold⟩ := h.told i o ho
    have hnone : start = none := htold.waiting (by rw [hs]; rfl)
    refine h.others ho hset (fun j _ => hsame j) ⟨start, ?_, fun _ => hnone, htold.named⟩ ?_
    · rw [hsame, htold.told, hs]
      rfl
    · intro n hn
      exact .inl (hnotices ▸ hn)
  | @started i stage o request ho hstage hs hname hnotices hset =>
    obtain ⟨start, htold⟩ := h.told i o ho
    have hnone : start = none := htold.waiting (by rw [hs]; rfl)
    refine h.others ho hset (fun j hj => State.toldOf_other hnotices rfl hj)
      ⟨some request, ?_, nofun, ?_⟩ ?_
    · rw [State.toldOf_self hnotices rfl, htold.told, hnone, hs]
      rfl
    · rintro _ ⟨⟩
      exact ⟨stage, hstage, hname⟩
    · intro n hn
      rw [hnotices] at hn
      rcases List.mem_cons.1 hn with rfl | hn
      · exact .inr rfl
      · exact .inl hn
  | @finished i o o' ho hopen hended hnotices hset =>
    obtain ⟨start, htold⟩ := h.told i o ho
    refine h.others ho hset (fun j hj => State.toldOf_other hnotices rfl hj)
      ⟨start, ?_, fun hw => ?_, htold.named⟩ ?_
    · rw [State.toldOf_self hnotices rfl, htold.told, hopen, hended]
      simp
    · rw [Status.waits_of_isTerminal hended] at hw
      cases hw
    · intro n hn
      rw [hnotices] at hn
      rcases List.mem_cons.1 hn with rfl | hn
      · exact .inr rfl
      · exact .inl hn

end Announced

theorem Reachable.announced (h : Reachable u env x) : Announced u x.state :=
  h.induct (Announced u) (announced_start u) fun _ _ ha hm => ha.move hm

/-! ## Starts and flights -/

/-- The command of a stage was in flight at some point on the way. -/
def HasFlown (u : Setup) (env : Environment) (x : Point) (i : Nat) : Prop :=
  ∃ y, Reachable u env y ∧ Steps u env y x ∧ i ∈ y.state.flights

theorem Told.mem_starts_iff {start : Option CommandRequest} (h : Told u s i o start) :
    i ∈ s.starts ↔ start.isSome = true := by
  have hmem : ∀ request, .stageStarted i request ∈ s.notices ↔
      .stageStarted i request ∈ s.toldOf i := by simp [State.toldOf, Notice.stage?]
  simp only [Scheduler.mem_starts_iff, hmem, h.told]
  cases start with
  | none =>
    cases o.status.isTerminal <;> simp
  | some request => simp

theorem Reachable.flights_subset (h : Reachable u env x) :
    ∀ i ∈ x.state.flights, i ∈ x.state.starts := by
  refine h.induct (fun s => ∀ i ∈ s.flights, i ∈ s.starts) nofun ?_
  intro s s' hall hm i hi
  have hland : ∀ j, i ∈ (s.land j).flights → i ∈ s.starts := by
    intro j hj
    rw [State.flights_land] at hj
    exact hall i (List.mem_filter.1 hj).1
  cases hm with
  | launch =>
    rw [State.flights_launch, List.mem_append, List.mem_singleton] at hi
    rw [State.starts_launch, List.mem_cons]
    exact hi.symm.imp id (hall i)
  | finish | drop => exact hland _ hi
  | signal =>
    rw [State.flights_fireSignals] at hi
    exact hall i hi
  | enqueue | unready | conclude | ask | wake => exact hall i hi

theorem Step.flies (h : Step u env x y) (hi : i ∈ y.state.starts) (hnew : i ∉ x.state.starts) :
    i ∈ y.state.flights := by
  have hmoved : y.state.starts ≠ x.state.starts := fun hsame => hnew (hsame ▸ hi)
  cases h with
  | begin | gated | full | again | settled => exact absurd rfl hmoved
  | gate h => exact absurd (Gated.of_gateOne env h).still.starts hmoved
  | dispatch hroom h =>
    rcases (Dispatched.of_dispatchOne env hroom h).launched with hstill | ⟨_, _, _, _, _, rfl⟩
    · exact absurd hstill.starts hmoved
    · rw [State.starts_launch, List.mem_cons] at hi
      rw [State.flights_launch, List.mem_append, List.mem_singleton]
      exact .inr (hi.resolve_right hnew)
  | @join c _ now s _ hc hans _ h =>
    have hc' : c ∈ (s.wakeAt now).inFlight := hc
    exact absurd (Completed.of_complete hc' hans h).still.starts hmoved
  | @cancelEarly now s _ henv hc _ h | @cancel now s _ henv hc _ _ h =>
    have hc' : (s.wakeAt now).run.cancelled = false := hc
    exact absurd (Withdrawn.of_cancel env hc' h).still.starts hmoved

theorem Moves.starts_subset (h : Moves u env s s') (hi : i ∈ s.starts) : i ∈ s'.starts := by
  induction h with
  | refl => exact hi
  | tail _ hm ih =>
    rcases hm.starts with hsame | ⟨_, _, _, _, hstarts⟩
    · exact hsame ▸ ih
    · rw [hstarts]
      exact List.mem_cons_of_mem _ ih

/-- The stages whose start was told are those whose command was in flight. -/
theorem Reachable.hasFlown_iff (h : Reachable u env x) :
    HasFlown u env x i ↔ i ∈ x.state.starts := by
  constructor
  · rintro ⟨y, hy, hyx, hi⟩
    exact (moves_of_steps hyx).starts_subset (hy.flights_subset i hi)
  · intro hi
    induction h with
    | refl => cases hi
    | @tail y z hy hstep ih =>
      by_cases hold : i ∈ y.state.starts
      · obtain ⟨p, hp, hpy, hflies⟩ := ih hold
        exact ⟨p, hp, hpy.tail hstep, hflies⟩
      · exact ⟨z, hy.tail hstep, .refl, hstep.flies hi hold⟩

/-! ## The number of stages that have ended -/

end Scheduler

def Run.ended (r : Run) : Nat := r.outcomes.countP (·.status.isTerminal)

theorem Run.ended_setOutcome {r : Run} {i : Nat} {o : Outcome} (ho : r.outcome? i = some o)
    (hopen : o.status.isTerminal = false) (o' : Outcome) :
    (r.setOutcome i o').ended = r.ended + if o'.status.isTerminal then 1 else 0 := by
  obtain ⟨hlt, hi⟩ := List.getElem?_eq_some_iff.1 ho
  rw [ended, setOutcome, List.countP_set hlt, hi, hopen]
  rfl

theorem Run.ended_start (p : Pipeline) (g : Graph) (t : Trigger) (dryRun : Bool) :
    (Run.start p g t dryRun).ended = 0 := by
  simp [ended, start, List.countP_eq_zero, Status.isTerminal]

/-- The bar of the display moves with every stage that is told to have ended. -/
theorem Progress.position_follow (colored : Bool) (notices : List Scheduler.Notice) :
    (follow colored notices).position = notices.countP Scheduler.Notice.isFinish := by
  have hfrom : ∀ (l : List Scheduler.Notice) (p : Progress),
      (l.foldl (hear colored) p).position =
        p.position + l.countP Scheduler.Notice.isFinish := by
    intro l
    induction l with
    | nil => intro p; rfl
    | cons n rest ih =>
      intro p
      rw [List.foldl_cons, ih, List.countP_cons]
      cases n with
      | runStarted | stageStarted => rfl
      | stageFinished =>
        simp only [hear, Scheduler.Notice.isFinish, if_true]
        omega
  rw [follow, hfrom]
  exact Nat.zero_add _

namespace Scheduler

/-- As many ends were told as stages have ended. -/
def Counted (s : State) : Prop := s.notices.countP Notice.isFinish = s.run.ended

theorem Counted.move (h : Counted s) (hm : Move u env s s') : Counted s' := by
  have hended : ∀ r : Run, s'.run.outcomes = r.outcomes → s'.run.ended = r.ended :=
    fun r hset => by rw [Run.ended, hset, Run.ended]
  unfold Counted at h ⊢
  cases hm.tells with
  | nothing hnotices hset => rw [hnotices, hended _ hset, h]
  | queued ho hs hnotices hset =>
    rw [hnotices, hended _ hset, Run.ended_setOutcome ho (by rw [hs]; rfl), h]
    rfl
  | started ho _ hs _ hnotices hset =>
    rw [hnotices, hended _ hset, Run.ended_setOutcome ho (by rw [hs]; rfl), List.countP_cons, h]
    rfl
  | finished ho hopen hs' hnotices hset =>
    rw [hnotices, hended _ hset, Run.ended_setOutcome ho hopen, List.countP_cons, h, hs']
    rfl

theorem Reachable.counted (h : Reachable u env x) : Counted x.state :=
  h.induct Counted (Run.ended_start ..).symm fun _ _ hc hm => hc.move hm

theorem Reachable.position (h : Reachable u env x) (colored : Bool) :
    (Progress.follow colored (x.state.told u)).position = x.state.run.ended := by
  rw [Progress.position_follow, State.told, List.countP_cons, List.countP_reverse]
  exact h.counted

/-! ## The end of a run -/

theorem Returns.isComplete {run : Run} (h : Returns u env x (.ok run)) :
    run.isComplete = true := by
  cases h with
  | verdict hv =>
    rw [verdict?] at hv
    split at hv
    · split at hv
      · rename_i hcomplete
        cases hv
        exact hcomplete
      · cases hv
    · cases hv

/-- In whatever order commands are done, with whatever results and whenever the run is cancelled,
an observer of a run that is returned was told of every stage exactly this: that its command was
started, if it was ever in flight and only then, and that the stage has ended, with the outcome
that it has at the end. No notice is about anything else, and at every point of the run the
display counts the stages that have ended. -/
theorem observers_see_each_stage_once (hx : Reachable u env x) :
    (∀ run, Returns u env x (.ok run) →
      (∀ i stage, u.stage? i = some stage → ∃ o, ∃ start : Option CommandRequest,
        run.outcome? i = some o ∧ o.name = stage.name ∧
        x.state.toldOf i = start.toList.map (.stageStarted i) ++ [.stageFinished i o] ∧
        (start.isSome = true ↔ HasFlown u env x i) ∧
        ∀ request ∈ start, request.stage = stage.name) ∧
      ∀ n ∈ x.state.notices, ∃ i stage, n.stage? = some i ∧ u.stage? i = some stage) ∧
    ∀ colored, (Progress.follow colored (x.state.told u)).position = x.state.run.ended := by
  refine ⟨fun run hr => ⟨?_, ?_⟩, hx.position⟩
  · intro i stage hstage
    obtain ⟨o, ho⟩ := hx.titled.present i stage hstage
    obtain ⟨start, htold⟩ := hx.announced.told i o ho
    have hended : o.status.isTerminal = true := by
      have hcomplete := hr.isComplete
      rw [hr.run_eq, Run.isComplete, List.all_eq_true] at hcomplete
      exact hcomplete o (List.mem_of_getElem? ho)
    obtain ⟨named, hnamed, hname, _⟩ := hx.titled.named i o ho
    obtain rfl : named = stage := Option.some.inj (hnamed.symm.trans hstage)
    refine ⟨o, start, hr.run_eq ▸ ho, hname, ?_, ?_, ?_⟩
    · rw [htold.told, if_pos hended]
    · rw [hx.hasFlown_iff, htold.mem_starts_iff]
    · intro request hrequest
      obtain ⟨own, hown, hrequested⟩ := htold.named request hrequest
      obtain rfl : own = named := Option.some.inj (hown.symm.trans hstage)
      exact hrequested
  · intro n hn
    obtain ⟨i, o, hi, ho⟩ := hx.announced.known n hn
    obtain ⟨stage, hstage, _⟩ := hx.titled.named i o ho
    exact ⟨i, stage, hi, hstage⟩

/-- Of a stage that was skipped an observer was told its end only, of the one behind it, whose
command was started, its start as well. -/
theorem observers_see_each_stage_once_broken_build : ∃ x run,
    Reachable brokenBuildSetup freeEnvironment x ∧
      Returns brokenBuildSetup freeEnvironment x (.ok run) ∧
      (∃ o, o.status = .skipped ∧ x.state.toldOf 2 = [.stageFinished 2 o]) ∧
      (∃ request o, x.state.toldOf 3 = [.stageStarted 3 request, .stageFinished 3 o]) ∧
      (Progress.follow false (x.state.told brokenBuildSetup)).position = 4 := by
  let results : List (Nat × Except Error CommandOutput) :=
    [(0, .ok { exitCode := some 1 }), (3, .ok { exitCode := some 0 })]
  let replayed := replay? brokenBuildSetup results (State.start brokenBuildSetup)
  let s := replayed.getD default
  have hreplay : replayed = some s := by
    have hsome : replayed.isSome = true := by decide +kernel
    exact (Option.some_get hsome).symm.trans (by rw [Option.get_eq_getD])
  have hanswers : ∀ e ∈ results, ∀ c, c.stage = e.1 → freeEnvironment.answers c e.2 := by
    simp [results, freeEnvironment]
  have hx : Reachable brokenBuildSetup freeEnvironment ⟨.waiting, s⟩ :=
    Reachable.replayed hanswers .refl hreplay
  have hr : Returns brokenBuildSetup freeEnvironment ⟨.waiting, s⟩ (.ok s.run) :=
    .verdict (verdict?_idle (by decide +kernel) (by decide +kernel))
  have hskipped : s.run.status? 2 = some .skipped := by decide +kernel
  have hstarts : 2 ∉ s.starts ∧ 3 ∈ s.starts := by decide +kernel
  have hended : s.run.ended = 4 := by decide +kernel
  clear_value s
  obtain ⟨hall, hposition⟩ := observers_see_each_stage_once hx
  obtain ⟨hstages, _⟩ := hall _ hr
  obtain ⟨o₂, start₂, ho₂, _, htold₂, hflown₂, _⟩ := hstages 2 _ rfl
  obtain ⟨o₃, start₃, _, _, htold₃, hflown₃, _⟩ := hstages 3 _ rfl
  rw [hx.hasFlown_iff] at hflown₂ hflown₃
  have hnone : start₂ = none := by
    cases start₂ with
    | none => rfl
    | some request => exact absurd (hflown₂.1 rfl) hstarts.1
  obtain ⟨request, rfl⟩ := Option.isSome_iff_exists.1 (hflown₃.2 hstarts.2)
  subst hnone
  have hs₂ : o₂.status = .skipped := by
    rw [Run.status?, ho₂] at hskipped
    exact Option.some.inj hskipped
  exact ⟨_, _, hx, hr, ⟨o₂, hs₂, htold₂⟩, ⟨request, o₃, htold₃⟩, (hposition false).trans hended⟩

end Scheduler
end Conveyor
