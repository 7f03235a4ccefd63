import Conveyor.Proofs.Pipeline.Validity
import Conveyor.Proofs.Scheduler.Aftermath
import Conveyor.Rehearsal

/-!
# Conveyor.Proofs.Scheduler.Limits

How long the commands of a run may take.

The checks refuse a stage that writes zero as its limit, but not settings that do, and a stage
without a limit of its own takes that of the settings. So the limit of a stage that passed the
checks can be zero in this one way. A command with such a limit is dropped in the instant of its
start, whatever it does.

That no other command is dropped before a second has passed is shown of whole rehearsals, on their
log. The clock stands while the driver settles, so the start of a command is logged at the instant
that the command keeps, and from this instant its limit is counted.

* `Stage.timeout_eq_zero_iff` — how a limit can be zero.
* `Tracked`                   — where the commands in flight come from.
* `Dated`, `Timely`           — the log knows the start of every command in flight, and every drop
                                in it is in time.
* `limits_exact`              — which limits are zero, and when commands are dropped.
-/

namespace Conveyor

theorem Stage.timeout_eq_zero_iff {s : Stage} {settings : Settings} (h : s.timeoutSecs ≠ some 0) :
    s.timeout settings = some 0 ↔ settings.timeoutSecs = some 0 ∧ s.timeoutSecs = none := by
  rw [timeout]
  cases hs : s.timeoutSecs with
  | none => simp
  | some t =>
    rw [hs] at h
    simp [h]

namespace Scheduler

variable {u : Setup} {env : Environment} {s s' t : State} {i : Nat} {stage : Stage} {o : Outcome}

/-! ## The clock stands while the driver settles -/

theorem clock_of_failFast (h : failFast u s stage = .ok s') : s'.run.clock = s.run.clock := by
  rw [failFast_eq] at h
  split at h
  · cases h
  · rename_i mid hmid
    have hgroup : mid.run.clock = s.run.clock := by
      unfold failGroup at hmid
      split at hmid
      · cases hmid
        rfl
      · rename_i group _
        obtain ⟨_, hskip, hskips, _⟩ := skipWhere_ok u (.failFast stage.name)
          (fun _ _ => @fallsWith_open group _ _) u.order s
        rw [hmid] at hskip
        cases hskip
        exact (kept_of_skips hskips).2.2
    split at h
    · obtain ⟨last, habort, hskips, _⟩ := abort_ok u mid (.failFast stage.name) true
      rw [habort] at h
      cases h
      exact (kept_of_skips hskips).2.2.trans hgroup
    · cases h
      exact hgroup

theorem clock_of_fail (ho : s.run.outcome? i = some o) (hs : o.status.isTerminal = false)
    {e : Error} (h : fail u s i e = .ok s') : s'.run.clock = s.run.clock := by
  have hrec : { s with run := s.run.setOutcome i (o.fail e s.run.clock) }.notifyFinished i =
      s.conclude i (o.fail e s.run.clock) := notifyFinished_put ho _
  rw [fail] at h
  split at h
  · cases h
  · split at h
    · cases h
    · simp only [Run.accepted_markFailed ho hs, hrec] at h
      split at h
      · cases h
        rfl
      · exact (clock_of_failFast h).trans rfl

theorem clock_of_gateOne {b : Bool} (h : gateOne u s i = .ok (s', b)) :
    s'.run.clock = s.run.clock := by
  by_cases hg : Gatable u s i
  · obtain ⟨o, ho, hs⟩ := outcome?_of_status? hg.waits
    obtain ⟨deps, hdeps⟩ := Option.isSome_iff_exists.1 hg.known
    obtain ⟨stage, hstage⟩ := Option.isSome_iff_exists.1 hg.stage
    have hopen : o.status.isTerminal = false := by rw [hs]; rfl
    simp only [gateOne, hg.waits, hdeps, hstage] at h
    split at h
    · simp only [Run.accepted_markQueued ho hs] at h
      cases h
      rfl
    · simp only [skip_ok ho hopen] at h
      cases h
      rfl
    · rename_i e _
      cases hfail : fail u s i e with
      | error e => rw [hfail] at h; cases h
      | ok t =>
        rw [hfail] at h
        cases h
        exact clock_of_fail ho hopen hfail
  · rw [gateOne_idle hg] at h
    cases h
    rfl

theorem clock_of_dispatchOne {b : Bool} (h : dispatchOne u s i = .ok (s', b)) :
    s'.run.clock = s.run.clock := by
  by_cases hd : Startable u s i
  · obtain ⟨o, ho, hs⟩ := outcome?_of_status? hd.queued
    obtain ⟨stage, hstage, hfree⟩ := hd.free
    obtain ⟨locks, hlock⟩ := Option.isSome_iff_exists.1 hfree
    have hopen : o.status.isTerminal = false := by rw [hs]; rfl
    simp only [dispatchOne, hd.queued, hstage, hlock] at h
    split at h
    · simp only [spawn_ok ho hs] at h
      cases h
      rfl
    · rename_i e _
      cases hfail : fail u { s with locks := locks.release i } i e with
      | error e => rw [hfail] at h; cases h
      | ok t =>
        rw [hfail] at h
        cases h
        exact clock_of_fail (s := { s with locks := locks.release i }) ho hopen hfail
  · rw [dispatchOne_idle hd] at h
    cases h
    rfl

/-- A world in which nothing happens. -/
def stillEnvironment : Environment := ⟨fun _ _ => False, False⟩

theorem clock_of_settle (h : settle u s = .ok s') : s'.run.clock = s.run.clock := by
  have hsteps : Steps u stillEnvironment ⟨.head, s⟩ ⟨.waiting, s'⟩ := steps_of_settle h
  have hall : ∀ x y, Steps u stillEnvironment x y → y.state.run.clock = x.state.run.clock := by
    intro x y h
    induction h with
    | refl => rfl
    | tail _ hstep ih =>
      rw [← ih]
      cases hstep with
      | begin | gated | full | again | settled => rfl
      | gate h => exact clock_of_gateOne h
      | dispatch _ h => exact clock_of_dispatchOne h
      | join _ hans => exact hans.elim
      | cancelEarly henv | cancel henv => exact henv.elim
  exact hall _ _ hsteps

/-! ## Where the commands in flight come from -/

/-- The command was in flight before, or its start was told since, at an instant between. -/
def Traced (s s' : State) (c : InFlight) : Prop :=
  (∃ d ∈ s.inFlight, d.stage = c.stage ∧ d.startedAt = c.startedAt) ∨
    ∃ request, .stageStarted c.stage request ∈ s'.notices ∧
      s.run.clock ≤ c.startedAt ∧ c.startedAt ≤ s'.run.clock

def Tracked (s s' : State) : Prop := ∀ c ∈ s'.inFlight, Traced s s' c

theorem Tracked.refl (s : State) : Tracked s s := fun c hc => .inl ⟨c, hc, rfl, rfl⟩

theorem InFlight.startedAt_hear (c : InFlight) (channel now : Nat) :
    (c.hear channel now).startedAt = c.startedAt := by
  rw [hear]
  split <;> rfl

/-- No notice is taken back by a move, and the clock does not go back. -/
theorem Move.grows (h : Move u env s s') :
    s.notices ⊆ s'.notices ∧ s.run.clock ≤ s'.run.clock := by
  cases h with
  | enqueue | drop | signal | ask => exact ⟨List.Subset.refl _, Nat.le_refl _⟩
  | launch | unready | conclude | finish => exact ⟨List.subset_cons_self _ _, Nat.le_refl _⟩
  | wake hnow => exact ⟨List.Subset.refl _, hnow⟩

theorem Tracked.move (h : Tracked s t) (hgrows : s.run.clock ≤ t.run.clock)
    (hm : Move u env t s') : Tracked s s' := by
  obtain ⟨hnotices, hclock⟩ := hm.grows
  -- a command that was in flight before the move
  have hkeep : ∀ d ∈ t.inFlight, ∀ c : InFlight, d.stage = c.stage → d.startedAt = c.startedAt →
      Traced s s' c := by
    intro d hd c hstage hat
    rw [Traced, ← hstage, ← hat]
    rcases h d hd with hold | ⟨request, htold, hfrom, hto⟩
    · exact .inl hold
    · exact .inr ⟨request, hnotices htold, hfrom, Nat.le_trans hto hclock⟩
  intro c hc
  cases hm with
  | enqueue | unready | conclude | ask | wake => exact hkeep c hc c rfl rfl
  | drop | finish => exact hkeep c (List.mem_of_mem_filter hc) c rfl rfl
  | signal =>
    obtain ⟨d, hd, rfl⟩ := List.mem_map.1 hc
    exact hkeep d hd _ (d.stage_hear _ _).symm (d.startedAt_hear _ _).symm
  | @launch i _ o locks request =>
    have hc' : c ∈ t.inFlight ++ [{ stage := i, request, startedAt := t.run.clock }] := hc
    rcases List.mem_append.1 hc' with hold | hnew
    · exact hkeep c hold c rfl rfl
    · obtain rfl := List.mem_singleton.1 hnew
      exact .inr ⟨request, List.mem_cons_self, hgrows, Nat.le_refl _⟩

theorem Moves.tracked (h : Moves u env s s') : s.run.clock ≤ s'.run.clock ∧ Tracked s s' := by
  induction h with
  | refl => exact ⟨Nat.le_refl _, .refl s⟩
  | tail _ hm ih => exact ⟨Nat.le_trans ih.1 hm.grows.2, ih.2.move ih.1 hm⟩

end Scheduler

/-! ## The log of a rehearsal -/

namespace Rehearsal

open Scheduler

variable {u : Setup} {o : Options} {log : List Entry} {s s' : State} {c : InFlight}
  {time : Nat} {i : Nat}

/-- The log has the start of the command of a stage at that instant. -/
def Started (log : List Entry) (i time : Nat) : Prop :=
  ∃ request, ⟨time, .notice (.stageStarted i request)⟩ ∈ log

/-- The log has the start of every command in flight, and the observer has taken all notices. -/
structure Dated (log : List Entry) (s : State) : Prop where
  taken : s.notices = []
  started : ∀ c ∈ s.inFlight, Started log c.stage c.startedAt

/-- Every command that was dropped had its limit. -/
def Timely (u : Setup) (log : List Entry) : Prop :=
  ∀ time i, ⟨time, .commandDropped i⟩ ∈ log → ∃ stage limit started,
    u.stage? i = some stage ∧ stage.timeout u.pipeline.settings = some limit ∧
      Started log i started ∧ time = started + 1000 * limit.toNat

theorem Started.append (h : Started log i time) (more : List Entry) :
    Started (log ++ more) i time := by
  obtain ⟨request, hmem⟩ := h
  exact ⟨request, List.mem_append_left _ hmem⟩

theorem Timely.append (h : Timely u log) {more : List Entry}
    (hmore : ∀ time i, ⟨time, .commandDropped i⟩ ∉ more) : Timely u (log ++ more) := by
  intro time i hmem
  rcases List.mem_append.1 hmem with hold | hnew
  · obtain ⟨stage, limit, started, hstage, hlimit, hstarted, htime⟩ := h time i hold
    exact ⟨stage, limit, started, hstage, hlimit, hstarted.append more, htime⟩
  · exact absurd hnew (hmore time i)

/-! ## What happens next to a command -/

theorem lt_after (time ticks stage : Nat) : time < after time ticks stage := by
  unfold after
  omega

theorem dueOf_expires {scripts : Dict Script} (h : dueOf u scripts c = (time, .expires)) :
    ∃ stage limit, u.stage? c.stage = some stage ∧
      stage.timeout u.pipeline.settings = some limit ∧
      time = c.startedAt + 1000 * limit.toNat := by
  simp only [dueOf] at h
  split at h
  · cases h
  · rename_i limit hlimit
    obtain ⟨stage, hstage, hlimit⟩ := Option.bind_eq_some_iff.1 hlimit
    split at h
    · cases h
      exact ⟨stage, limit, hstage, hlimit, rfl⟩
    · cases h

/-- With the limit zero a command has no time, whatever it does. -/
theorem dueOf_zero {stage : Stage} (hstage : u.stage? c.stage = some stage)
    (hlimit : stage.timeout u.pipeline.settings = some 0)
    (habort : ∀ t, c.abortedAt = some t → c.startedAt ≤ t) (scripts : Dict Script) :
    dueOf u scripts c = (c.startedAt, .expires) := by
  have hend : c.startedAt < endOf ((scripts.get? c.request.stage).getD {}) c := by
    unfold endOf
    split
    · exact lt_after ..
    · rename_i t ht
      exact Nat.lt_of_le_of_lt (habort t ht) (lt_after ..)
  simp only [dueOf, hstage, Option.bind_some, hlimit]
  exact if_pos hend

theorem dueOf_of_next? {scripts : Dict Script} {due : Due} :
    ∀ {l : List InFlight}, next? u scripts l = some (c, time, due) →
      c ∈ l ∧ dueOf u scripts c = (time, due) := by
  intro l
  induction l with
  | nil => intro h; cases h
  | cons d rest ih =>
    intro h
    simp only [next?] at h
    split at h
    · cases h
      exact ⟨List.mem_cons_self, rfl⟩
    · rename_i hrest
      split at h
      · cases h
        exact ⟨List.mem_cons_self, rfl⟩
      · cases h
        obtain ⟨hmem, hdue⟩ := ih hrest
        exact ⟨List.mem_cons_of_mem _ hmem, hdue⟩

theorem dueOf_of_wake? {due : Due} (h : wake? u o s = some (time, .command c due)) :
    c ∈ s.inFlight ∧ dueOf u o.scripts c = (time, due) := by
  simp only [wake?] at h
  split at h
  · cases h
  · rename_i hnext
    split at h
    · cases h
      exact dueOf_of_next? hnext
    · split at h
      · cases h
        exact dueOf_of_next? hnext
      · cases h

/-! ## Steps of a rehearsal -/

/-- A drop is logged at the instant at which the limit of the command has passed. -/
theorem Timely.wake (h : Timely u log) (hd : Dated log s) {wake : Wake}
    (hwake : wake? u o s = some (time, wake)) (now : State) :
    Timely u (log ++ (wake.apply u o.scripts now).1.map fun event => ⟨time, event⟩) := by
  cases wake with
  | cancel => exact h.append fun _ _ => List.not_mem_nil
  | command c due =>
    obtain ⟨hc, hdue⟩ := dueOf_of_wake? hwake
    cases due with
    | ends cancelled =>
      refine h.append fun _ _ hmem => ?_
      cases List.mem_singleton.1 hmem
    | expires =>
      obtain ⟨stage, limit, hstage, hlimit, htime⟩ := dueOf_expires hdue
      intro time' i hmem
      rcases List.mem_append.1 hmem with hold | hnew
      · obtain ⟨stage', limit', started, hstage', hlimit', hstarted, htime'⟩ := h time' i hold
        exact ⟨stage', limit', started, hstage', hlimit', hstarted.append _, htime'⟩
      · cases List.mem_singleton.1 hnew
        exact ⟨stage, limit, c.startedAt, hstage, hlimit, (hd.started c hc).append _, htime⟩

theorem Timely.take (h : Timely u log) (s : State) : Timely u (takeNotices log s).1 := by
  refine h.append fun _ _ hmem => ?_
  obtain ⟨_, _, hentry⟩ := List.mem_map.1 hmem
  cases hentry

theorem Dated.settle (h : Dated log s) (hs : settle u s = .ok s') :
    Dated (takeNotices log s').1 (takeNotices log s').2 := by
  refine ⟨rfl, fun c hc => ?_⟩
  have hclock := clock_of_settle hs
  have hmoves : Moves u stillEnvironment s s' :=
    moves_of_steps (x := ⟨.head, s⟩) (y := ⟨.waiting, s'⟩) (steps_of_settle hs)
  rcases hmoves.tracked.2 c hc with ⟨d, hd, hstage, hat⟩ | ⟨request, htold, hfrom, hto⟩
  · rw [← hstage, ← hat]
    exact (h.started d hd).append _
  · have hat : c.startedAt = s'.run.clock := by omega
    rw [hat]
    exact ⟨request, List.mem_append_right _
      (List.mem_map.2 ⟨_, List.mem_reverse.2 htold, rfl⟩)⟩

/-- A step that starts nothing. -/
theorem Dated.land (h : Dated log s) (htracked : Tracked s s') (hstarts : s'.starts = s.starts)
    (events : List Entry) :
    Dated (takeNotices (log ++ events) s').1 (takeNotices (log ++ events) s').2 := by
  refine ⟨rfl, fun c hc => ?_⟩
  rcases htracked c hc with ⟨d, hd, hstage, hat⟩ | ⟨request, htold, _⟩
  · rw [← hstage, ← hat]
    exact ((h.started d hd).append _).append _
  · have hnone : s'.starts = [] := by rw [hstarts, State.starts, h.taken]; rfl
    have hmem : c.stage ∈ s'.starts := List.mem_filterMap.2 ⟨_, htold, rfl⟩
    rw [hnone] at hmem
    cases hmem

theorem Wake.apply_ok {wake : Wake} {scripts : Dict Script}
    (hmem : ∀ c due, wake = .command c due → c ∈ s.inFlight)
    (h : (wake.apply u scripts s).2 = .ok s') : Tracked s s' ∧ s'.starts = s.starts := by
  let env : Environment := ⟨fun _ _ => True, True⟩
  have hcomplete : ∀ c due, wake = .command c due → ∀ result,
      complete u s c.stage result = .ok s' → Tracked s s' ∧ s'.starts = s.starts := by
    intro c due hwake result hdone
    have hcompleted : Completed u env s c.stage s' :=
      .of_complete (hmem c due hwake) trivial hdone
    exact ⟨hcompleted.moves.tracked.2, hcompleted.still.starts⟩
  cases wake with
  | cancel =>
    cases hc : s.run.cancelled with
    | true =>
      simp only [apply, Scheduler.cancel, hc, if_true] at h
      cases h
      exact ⟨.refl s, rfl⟩
    | false =>
      have hwithdrawn := Withdrawn.of_cancel env hc h
      exact ⟨(hwithdrawn.moves trivial).tracked.2, hwithdrawn.still.starts⟩
  | command c due =>
    cases due with
    | ends cancelled => exact hcomplete c _ rfl _ h
    | expires =>
      simp only [apply] at h
      exact hcomplete c _ rfl _ h

theorem timely_runFrom : ∀ {fuel : Nat} {log : List Entry} {s : State}, Dated log s →
    Timely u log → Timely u (runFrom u o fuel log s).log := by
  intro fuel
  induction fuel with
  | zero =>
    intro log s _ ht
    exact ht
  | succ fuel ih =>
    intro log s hd ht
    rw [runFrom]
    split
    · exact ht
    · rename_i settled hsettle
      have hd' := hd.settle hsettle
      have ht' := ht.take settled
      simp only
      split
      · exact ht'
      · exact ht'
      · rename_i time wake _ hwake
        have ht'' := ht'.wake hd' hwake (State.wakeAt (takeNotices log settled).2 time)
        split
        · exact ht''
        · rename_i next hnext
          have hmem : ∀ c due, wake = .command c due →
              c ∈ ((takeNotices log settled).2.wakeAt time).inFlight := by
            rintro c due rfl
            exact (dueOf_of_wake? hwake).1
          obtain ⟨htracked, hstarts⟩ := Wake.apply_ok hmem hnext
          have hd'' : Dated (takeNotices log settled).1
              ((takeNotices log settled).2.wakeAt time) := ⟨hd'.taken, hd'.started⟩
          exact ih (hd''.land htracked hstarts _) (ht''.take next)

theorem timely_rehearse {p : Pipeline} {g : Graph} (h : p.ensureValid = .ok g) (t : Trigger)
    (runId : String) (o : Options) :
    ∃ u : Setup, u.pipeline = p ∧ Timely u (rehearse p t runId o).log := by
  let u : Setup :=
    { pipeline := p, graph := g, trigger := t, provider := o.secrets.get?
      maxParallel := o.maxParallel, hostWorkers, runId }
  refine ⟨u, rfl, ?_⟩
  let log : List Entry := [⟨0, .notice (.runStarted p.stages.length)⟩]
  have ht : Timely u log := by
    intro time i hmem
    cases List.mem_singleton.1 hmem
  let start : State := { run := Run.start p g t o.dryRun }
  have hd : Dated log start := ⟨rfl, fun c hc => absurd hc List.not_mem_nil⟩
  simp only [rehearse, h]
  split
  · exact ht
  · split
    · exact ht
    · rename_i s hs
      have hstart : Tracked start s ∧ s.starts = start.starts := by
        split at hs
        · have hcancel : (Wake.cancel.apply u o.scripts start).2 = .ok s := hs
          exact Wake.apply_ok (fun _ _ hwake => by cases hwake) hcancel
        · cases hs
          exact ⟨.refl _, rfl⟩
      have hd' := hd.land hstart.1 hstart.2 []
      rw [List.append_nil] at hd'
      exact timely_runFrom hd' (ht.take s)

end Rehearsal

/-- The stage has no limit of its own, and that of the settings is zero. -/
def Pipeline.LeavesNoTime (p : Pipeline) (s : Stage) : Prop :=
  p.settings.timeoutSecs = some 0 ∧ s.timeoutSecs = none

namespace Rehearsal

open Scheduler

/-- A stage of a definition that may run has a limit of zero exactly if it takes it from the
settings. Whenever a command is dropped, its limit has passed since its start, which is in the log;
so it is dropped in the instant of its start if its stage has been left no time, and not within a
second otherwise. And a stage that has been left no time gets none for any command. -/
theorem limits_exact {p : Pipeline} {g : Graph} (h : p.ensureValid = .ok g) :
    (∀ s ∈ p.stages, s.timeout p.settings = some 0 ↔ p.LeavesNoTime s) ∧
    (∀ t runId o time i, ⟨time, .commandDropped i⟩ ∈ (rehearse p t runId o).log →
      ∃ stage started, p.stages[i]? = some stage ∧ Started (rehearse p t runId o).log i started ∧
        (p.LeavesNoTime stage → time = started) ∧
        (¬ p.LeavesNoTime stage → started + 1000 ≤ time)) ∧
    ∀ (u : Setup) scripts c stage, u.pipeline = p → p.stages[c.stage]? = some stage →
      (∀ t, c.abortedAt = some t → c.startedAt ≤ t) →
      (dueOf u scripts c = (c.startedAt, .expires) ↔ p.LeavesNoTime stage) := by
  have hzero : ∀ s ∈ p.stages, s.timeout p.settings = some 0 ↔ p.LeavesNoTime s := fun s hs =>
    Stage.timeout_eq_zero_iff ((Pipeline.valid_of_ensureValid h).each s hs).timeout
  refine ⟨hzero, ?_, ?_⟩
  · intro t runId o time i hmem
    obtain ⟨u, rfl, htimely⟩ := timely_rehearse h t runId o
    obtain ⟨stage, limit, started, hstage, hlimit, hstarted, htime⟩ := htimely time i hmem
    have hnone := hzero stage (List.mem_of_getElem? hstage)
    refine ⟨stage, started, hstage, hstarted, fun hleaves => ?_, fun hleaves => ?_⟩
    · rw [← hnone, hlimit, Option.some.injEq] at hleaves
      rw [htime, hleaves]
      rfl
    · rw [← hnone, hlimit, Option.some.injEq, ← UInt64.toNat_inj] at hleaves
      have hpos : 0 < limit.toNat := Nat.pos_of_ne_zero hleaves
      omega
  · rintro u scripts c stage rfl hstage habort
    have hnone := hzero stage (List.mem_of_getElem? hstage)
    constructor
    · intro hdue
      obtain ⟨stage', limit, hstage', hlimit, htime⟩ := dueOf_expires hdue
      cases hstage.symm.trans hstage'
      have hlimit0 : limit = 0 := by
        rw [← UInt64.toNat_inj]
        show limit.toNat = 0
        omega
      rw [← hnone, hlimit, hlimit0]
    · intro hleaves
      exact dueOf_zero hstage (hnone.2 hleaves) habort scripts

/-- A stage without a limit of its own, under the limit zero for all. -/
def hurried : Pipeline where
  name := "p"
  settings := { timeoutSecs := some 0 }
  stages := [{ name := "build", run := .script "make" }]

def isDrop (i time : Nat) (e : Entry) : Bool :=
  match e.event with
  | .commandDropped j => j = i && e.time = time
  | _ => false

theorem mem_of_any_isDrop {log : List Entry} (h : log.any (isDrop i time) = true) :
    ⟨time, .commandDropped i⟩ ∈ log := by
  obtain ⟨⟨t, event⟩, hmem, hdrop⟩ := List.any_eq_true.1 h
  cases event with
  | commandDropped j =>
    simp only [isDrop, Bool.and_eq_true, decide_eq_true_eq] at hdrop
    obtain ⟨rfl, rfl⟩ := hdrop
    exact hmem
  | notice | commandEnded => cases hdrop

/-- Its command is dropped in the instant of its start. -/
theorem limits_exact_hurried : ∃ g stage, hurried.ensureValid = .ok g ∧
    hurried.stages[0]? = some stage ∧ stage.timeout hurried.settings = some 0 ∧
    ⟨0, .commandDropped 0⟩ ∈ (rehearse hurried default "r" {}).log ∧
    Started (rehearse hurried default "r" {}).log 0 0 := by
  let g : Graph :=
    { names := ["build"]
      places := .ofList [("build", 0)]
      edges := []
      predecessors := [[]]
      successors := [[]] }
  have h : hurried.ensureValid = .ok g := rfl
  have hdrop : ⟨0, .commandDropped 0⟩ ∈ (rehearse hurried default "r" {}).log :=
    mem_of_any_isDrop (by decide +kernel)
  obtain ⟨hzero, hdrops, _⟩ := limits_exact h
  obtain ⟨stage, started, hstage, hstarted, hat, _⟩ := hdrops _ _ _ _ _ hdrop
  have hleaves : hurried.LeavesNoTime stage := by
    cases hstage
    exact ⟨rfl, rfl⟩
  obtain rfl := hat hleaves
  exact ⟨_, stage, h, hstage, (hzero stage (List.mem_of_getElem? hstage)).2 hleaves, hdrop,
    hstarted⟩

end Rehearsal
end Conveyor
