import Conveyor.Proofs.Gate.Decision
import Conveyor.Proofs.Output.Resolution
import Conveyor.Proofs.Scheduler.Move

/-!
# Conveyor.Proofs.Scheduler.Operations

Every operation of the scheduler is a sequence of moves.

Each operation has one lemma here, which later proofs cite instead of opening it. Settling,
failing, aborting and cancelling never go wrong, whatever the state: every mark they make is on
a stage whose status was looked at just before. Only applying a result can fail, for one of two
reasons (`complete_ok`): the result is an error that makes the run unusable, or its outputs were
published before.

* `gateOne_ok`, `dispatchOne_ok` — a stage is gated or started, or nothing happens and nothing
                                   could.
* `complete_ok`, `cancel_ok`     — the events.
* `moves_of_step`                — so every step of the driver is a sequence of moves.
* `Step.effect`                  — what a step does to the commands in flight.
-/

namespace Conveyor

/-! ## Errors that fail one stage only -/

theorem Gate.isFatal_of_decide {t : Trigger} {stage : Stage} {deps : Dependencies} {e : Error}
    (h : Gate.decide t stage deps = .error e) : e.isFatal = false := by
  have hanswers : Gate.Answers t stage deps (.error e) := h ▸ Gate.answers
  cases hanswers <;> rfl

namespace OutputStore

theorem isFatal_of_resolveInput {store : OutputStore} {consumer : String}
    {statusOf : String → Option Status} {r : OutputRef} {e : Error}
    (h : store.resolveInput consumer statusOf r = .error e) : e.isFatal = false := by
  rw [resolveInput] at h
  split at h
  · cases h; rfl
  · rw [resolve.eq_def] at h
    split at h
    · split at h <;> cases h
      rfl
    all_goals cases h; rfl

theorem isFatal_of_resolveInputs {store : OutputStore} {stage : Stage}
    {statusOf : String → Option Status} {e : Error}
    (h : store.resolveInputs stage statusOf = .error e) : e.isFatal = false := by
  obtain ⟨_, _, _, hone⟩ := resolveInputs_error h
  exact isFatal_of_resolveInput hone

end OutputStore

theorem Lease.isFatal_of_acquire {provider : SecretProvider} {stage : String}
    {names : List String} {e : Error} (h : Lease.acquire provider stage names = .error e) :
    e.isFatal = false := by
  obtain ⟨_, _, _, rfl⟩ := acquire_error h
  rfl

namespace Scheduler

variable {u : Setup} {env : Environment} {s s' : State} {i : Nat} {stage : Stage} {o : Outcome}

theorem isFatal_of_prepare {e : Error} (h : prepare u s stage = .error e) :
    e.isFatal = false := by
  rw [prepare] at h
  split at h
  · rename_i hin
    cases h
    exact OutputStore.isFatal_of_resolveInputs hin
  · split at h
    · rename_i hsecrets
      cases h
      exact Lease.isFatal_of_acquire hsecrets
    · cases h

/-! ## Skipping -/

theorem outcome?_put (ho : s.run.outcome? i = some o) (o' : Outcome) :
    (s.put i o').run.outcome? i = some o' := by
  rw [State.run_put, Run.outcome?_setOutcome ho, if_pos rfl]

theorem notifyFinished_put (ho : s.run.outcome? i = some o) (o' : Outcome) :
    (s.put i o').notifyFinished i = s.conclude i o' := by
  rw [State.notifyFinished, outcome?_put ho]
  rfl

theorem skip_ok (ho : s.run.outcome? i = some o) (hs : o.status.isTerminal = false)
    (reason : SkipReason) :
    skip s i reason = .ok (s.conclude i (o.skip reason s.run.clock)) := by
  rw [skip, Run.accepted_markSkipped ho hs, ← notifyFinished_put ho]
  rfl

/-- One stage is skipped whose definition and status satisfy a test. -/
def Skips (u : Setup) (test : Stage → Status → Bool) (reason : SkipReason) (s s' : State) :
    Prop :=
  ∃ i stage o, u.stage? i = some stage ∧ s.run.outcome? i = some o ∧
    test stage o.status = true ∧ s' = s.conclude i (o.skip reason s.run.clock)

section
variable {test : Stage → Status → Bool} {reason : SkipReason}

theorem outcome?_of_skips (h : Relation.ReflTransGen (Skips u test reason) s s') {j : Nat}
    (ho : s'.run.outcome? j = some o) :
    s.run.outcome? j = some o ∨ o.status.isTerminal = true := by
  induction h generalizing o with
  | refl => exact .inl ho
  | tail _ hskip ih =>
    obtain ⟨i, stage, a, _, ha, _, rfl⟩ := hskip
    rw [State.run_conclude, Run.outcome?_setOutcome ha] at ho
    split at ho
    · cases ho
      exact .inr rfl
    · exact ih ho

theorem still_of_skips (h : Relation.ReflTransGen (Skips u test reason) s s') : s.Still s' := by
  induction h with
  | refl => exact .refl s
  | tail _ hskip ih =>
    obtain ⟨_, _, _, _, _, _, rfl⟩ := hskip
    exact ih.trans ⟨rfl, rfl, rfl⟩

/-- Stages were skipped, and none of the list satisfies the test any more. -/
structure Pruned (u : Setup) (test : Stage → Status → Bool) (reason : SkipReason) (l : List Nat)
    (s s' : State) : Prop where
  skips : Relation.ReflTransGen (Skips u test reason) s s'
  spared : ∀ j ∈ l, ∀ stage o, u.stage? j = some stage → s'.run.outcome? j = some o →
    test stage o.status = false

theorem test_of_isTerminal
    (htest : ∀ stage status, test stage status = true → status.isTerminal = false)
    (hs : o.status.isTerminal = true) : test stage o.status = false := by
  cases h : test stage o.status with
  | false => rfl
  | true =>
    rw [htest _ _ h] at hs
    cases hs

/-- A stage that fails the test now can pass it only by ending, which makes it fail again. -/
theorem Pruned.keep {l : List Nat} (h : Pruned u test reason l s s')
    (htest : ∀ stage status, test stage status = true → status.isTerminal = false)
    (hi : ∀ stage o, u.stage? i = some stage → s.run.outcome? i = some o →
      test stage o.status = false) : Pruned u test reason (i :: l) s s' := by
  refine ⟨h.skips, fun j hj stage o hstage ho => ?_⟩
  rcases List.mem_cons.1 hj with rfl | hj
  · rcases outcome?_of_skips h.skips ho with ho | hs
    · exact hi stage o hstage ho
    · exact test_of_isTerminal htest hs
  · exact h.spared j hj stage o hstage ho

theorem Pruned.skip {l : List Nat}
    (h : Pruned u test reason l (s.conclude i (o.skip reason s.run.clock)) s')
    (htest : ∀ stage status, test stage status = true → status.isTerminal = false)
    (hstage : u.stage? i = some stage) (ho : s.run.outcome? i = some o)
    (ht : test stage o.status = true) : Pruned u test reason (i :: l) s s' := by
  refine ⟨.head ⟨i, stage, o, hstage, ho, ht, rfl⟩ h.skips, (h.keep htest ?_).spared⟩
  intro stage' o' _ ho'
  rw [State.run_conclude, Run.outcome?_setOutcome ho, if_pos rfl] at ho'
  cases ho'
  exact test_of_isTerminal htest rfl

theorem skipWhere_ok (u : Setup) (reason : SkipReason)
    (htest : ∀ stage status, test stage status = true → status.isTerminal = false) :
    ∀ (l : List Nat) (s : State), ∃ s', skipWhere u test reason l s = .ok s' ∧
      Pruned u test reason l s s' := by
  intro l
  induction l with
  | nil => exact fun s => ⟨s, rfl, .refl, List.forall_mem_nil _⟩
  | cons i rest ih =>
    intro s
    cases hstage : u.stage? i with
    | none =>
      obtain ⟨s', hs', hrest⟩ := ih s
      refine ⟨s', ?_, hrest.keep htest fun _ _ h _ => by rw [hstage] at h; cases h⟩
      simpa only [skipWhere, hstage] using hs'
    | some stage =>
      cases ho : s.run.outcome? i with
      | none =>
        obtain ⟨s', hs', hrest⟩ := ih s
        refine ⟨s', ?_, hrest.keep htest fun _ _ _ h => by rw [ho] at h; cases h⟩
        simpa only [skipWhere, hstage, Run.status?, ho, Option.map_none] using hs'
      | some o =>
        cases ht : test stage o.status with
        | true =>
          obtain ⟨s', hs', hrest⟩ := ih (s.conclude i (o.skip reason s.run.clock))
          refine ⟨s', ?_, hrest.skip htest hstage ho ht⟩
          simpa only [skipWhere, hstage, Run.status?, ho, Option.map_some, ht, if_true,
            skip_ok ho (htest _ _ ht)] using hs'
        | false =>
          obtain ⟨s', hs', hrest⟩ := ih s
          refine ⟨s', ?_, hrest.keep htest fun stage' o' hstage' ho' => ?_⟩
          · simpa [skipWhere, hstage, Run.status?, ho, ht] using hs'
          · cases hstage.symm.trans hstage'
            cases ho.symm.trans ho'
            exact ht

end

theorem isAborted_open {spare : Bool} {stage : Stage} {status : Status}
    (h : isAborted spare stage status = true) : status.isTerminal = false := by
  simp only [isAborted, Bool.and_eq_true, Bool.not_eq_true'] at h
  exact h.1

theorem fallsWith_open {group : String} {stage : Stage} {status : Status}
    (h : fallsWith group stage status = true) : status.isTerminal = false := by
  simp only [fallsWith, Bool.and_eq_true, Bool.or_eq_true, decide_eq_true_eq] at h
  rcases h.1.1 with rfl | rfl <;> rfl

/-! ## Aborting and failing -/

/-- An abort leaves open only what it spares. -/
theorem abort_ok (u : Setup) (s : State) (reason : SkipReason) (spare : Bool) :
    ∃ mid, abort u s reason spare = .ok mid.fireSignals ∧
      Relation.ReflTransGen (Skips u (isAborted spare) reason) s mid ∧
      ∀ j ∈ u.order, ∀ stage o, u.stage? j = some stage → mid.run.outcome? j = some o →
        isAborted spare stage o.status = false := by
  obtain ⟨mid, hmid, hskips, hrest⟩ :=
    skipWhere_ok u reason (fun _ _ => isAborted_open) u.order s
  exact ⟨mid, by rw [abort, hmid], hskips, hrest⟩

theorem moves_of_skips {test : Stage → Status → Bool} {cause : Stage}
    (htest : ∀ stage status, test stage status = true →
      status.isTerminal = false ∧ Falls u cause stage status)
    (hcause : HasFailed u s cause)
    (h : Relation.ReflTransGen (Skips u test (.failFast cause.name)) s s') :
    Moves u env s s' ∧ HasFailed u s' cause := by
  induction h with
  | refl => exact ⟨.refl, hcause⟩
  | tail _ hskip ih =>
    obtain ⟨hmoves, hcause⟩ := ih
    obtain ⟨i, stage, o, hstage, ho, ht, rfl⟩ := hskip
    obtain ⟨hs, hfall⟩ := htest stage o.status ht
    have hm : Move u env _ _ := .conclude ho hstage (.fall hs hcause hfall)
    exact ⟨hmoves.tail hm, hm.hasFailed hcause⟩

/-- What a failure does to its fail-fast group. -/
def failGroup (u : Setup) (s : State) (cause : Stage) : Except Error State :=
  match cause.failFastGroup with
  | none => .ok s
  | some group => skipWhere u (fallsWith group) (.failFast cause.name) u.order s

theorem failFast_eq (u : Setup) (s : State) (cause : Stage) :
    failFast u s cause = match failGroup u s cause with
      | .error e => .error e
      | .ok s =>
        if u.pipeline.settings.failFast then abort u s (.failFast cause.name) true else .ok s :=
  rfl

/-- Every stage that has not ended runs whatever happens. -/
def OnlySpared (u : Setup) (s : State) : Prop :=
  ∀ k ∈ u.order, ∀ stage o, u.stage? k = some stage → s.run.outcome? k = some o →
    o.status.isTerminal = false → stage.onFailure = .always

/-- With a fail-fast for the whole run, nothing but what it spares outlives a failure. -/
def Guarded (u : Setup) (s : State) : Prop :=
  u.pipeline.settings.failFast = true → ∀ cause, HasFailed u s cause → OnlySpared u s

/-- No other stage has failed, and none that had ended is open again. -/
theorem Guarded.of_same (h : Guarded u s)
    (hopen : ∀ k o, s'.run.outcome? k = some o → o.status.isTerminal = false →
      ∃ o', s.run.outcome? k = some o' ∧ o'.status.isTerminal = false)
    (hfailed : ∀ j o, s'.run.outcome? j = some o → o.status = .failed →
      s.run.outcome? j = some o ∨ ∃ stage, u.stage? j = some stage ∧ stage.allowFailure = true) :
    Guarded u s' := by
  rintro hff cause ⟨j, o, hstage, ho, hs, hopt⟩ k hk stage a hkstage ha hopen'
  obtain ⟨a', ha', hs'⟩ := hopen k a ha hopen'
  rcases hfailed j o ho hs with ho | ⟨stage', hstage', hallow⟩
  · exact h hff cause ⟨j, o, hstage, ho, hs, hopt⟩ k hk stage a' hkstage ha' hs'
  · rw [hstage] at hstage'
    cases hstage'
    rw [hopt] at hallow
    cases hallow

/-- One stage has changed, and it has not failed or may. -/
theorem Guarded.set (h : Guarded u s) (ho : s.run.outcome? i = some o)
    (hs : o.status.isTerminal = false) {o' : Outcome}
    (hrun : ∀ j, s'.run.outcome? j = (s.run.setOutcome i o').outcome? j)
    (hfailed : o'.status = .failed → ∃ stage, u.stage? i = some stage ∧
      stage.allowFailure = true) : Guarded u s' := by
  refine h.of_same ?_ ?_
  · intro k a ha has
    rw [hrun, Run.outcome?_setOutcome ho] at ha
    split at ha
    · rename_i hk
      exact ⟨o, hk ▸ ho, hs⟩
    · exact ⟨a, ha, has⟩
  · intro j a ha has
    rw [hrun, Run.outcome?_setOutcome ho] at ha
    split at ha
    · rename_i hj
      cases ha
      exact .inr (hj ▸ hfailed has)
    · exact .inl ha

theorem failFast_ok (env : Environment) {cause : Stage} (hcause : HasFailed u s cause) :
    ∃ s', failFast u s cause = .ok s' ∧ Moves u env s s' ∧ s.Still s' ∧
      (u.pipeline.settings.failFast = true → OnlySpared u s') := by
  obtain ⟨mid, hmid, ⟨hmoves, hcause⟩, hstill⟩ : ∃ mid, failGroup u s cause = .ok mid ∧
      (Moves u env s mid ∧ HasFailed u mid cause) ∧ s.Still mid := by
    unfold failGroup
    cases hgroup : cause.failFastGroup with
    | none => exact ⟨s, rfl, ⟨.refl, hcause⟩, .refl s⟩
    | some group =>
      obtain ⟨mid, hmid, hskips, _⟩ := skipWhere_ok u (.failFast cause.name)
        (fun _ _ => fallsWith_open) u.order s
      refine ⟨mid, hmid, moves_of_skips ?_ hcause hskips, still_of_skips hskips⟩
      intro stage status h
      exact ⟨fallsWith_open h, .inl ⟨group, hgroup, h⟩⟩
  by_cases hff : u.pipeline.settings.failFast = true
  · obtain ⟨last, hlast, hskips, hrest⟩ := abort_ok u mid (.failFast cause.name) true
    have hmoves' : Moves u env mid last ∧ HasFailed u last cause :=
      moves_of_skips (fun _ _ h => ⟨isAborted_open h, .inr ⟨hff, h⟩⟩) hcause hskips
    refine ⟨last.fireSignals, ?_, hmoves.trans (hmoves'.1.tail .signal),
      (hstill.trans (still_of_skips hskips)).trans (State.still_fireSignals last), fun _ => ?_⟩
    · simp only [failFast_eq, hmid, hff, if_true, hlast]
    · intro k hk stage o hstage ho hs
      have hspared := hrest k hk stage o hstage ho
      simp only [isAborted, hs, Bool.not_false, Bool.true_and, Bool.not_eq_false',
        Bool.and_eq_true, decide_eq_true_eq] at hspared
      exact hspared.2
  · refine ⟨mid, ?_, hmoves, hstill, fun h => absurd h hff⟩
    simp only [failFast_eq, hmid, hff]
    rfl

/-- A failure is recorded, then takes along what it has to. -/
theorem fail_ok (env : Environment) (ho : s.run.outcome? i = some o)
    (hstage : u.stage? i = some stage) (hs : o.status.isTerminal = false) {e : Error}
    (he : e.isFatal = false) :
    ∃ s', fail u s i e = .ok s' ∧ Moves u env (s.conclude i (o.fail e s.run.clock)) s' ∧
      s.Still s' ∧ (Guarded u s → Guarded u s') := by
  have hrec : { s with run := s.run.setOutcome i (o.fail e s.run.clock) }.notifyFinished i =
      s.conclude i (o.fail e s.run.clock) := notifyFinished_put ho _
  by_cases hopt : stage.allowFailure = true
  · refine ⟨s.conclude i (o.fail e s.run.clock), ?_, .refl, ⟨rfl, rfl, rfl⟩, fun hg => ?_⟩
    · simp only [fail, he, hstage, Run.accepted_markFailed ho hs, hrec, hopt, if_true]
      rfl
    · exact hg.set ho hs (fun _ => rfl) fun _ => ⟨stage, hstage, hopt⟩
  · have hcause : HasFailed u (s.conclude i (o.fail e s.run.clock)) stage := by
      exact ⟨i, _, hstage, outcome?_put ho _, Outcome.status_fail o e s.run.clock,
        by simpa using hopt⟩
    obtain ⟨s', hs', hmoves, hstill, hspared⟩ := failFast_ok env hcause
    refine ⟨s', ?_, hmoves, ⟨hstill.starts, hstill.flights, hstill.cancelled⟩,
      fun _ hff _ _ => hspared hff⟩
    simp only [fail, he, hstage, Run.accepted_markFailed ho hs, hrec, hopt]
    exact hs'

/-! ## Gating and starting -/

/-- The stage waits and all its dependencies have ended. -/
structure Gatable (u : Setup) (s : State) (i : Nat) : Prop where
  waits : s.run.status? i = some .pending
  known : (s.run.dependencies? i).isSome = true
  stage : (u.stage? i).isSome = true

/-- The stage is queued and can have its concurrency group. -/
structure Startable (u : Setup) (s : State) (i : Nat) : Prop where
  queued : s.run.status? i = some .queued
  free : ∃ stage, u.stage? i = some stage ∧ (lock? s.locks i stage).isSome = true

theorem outcome?_of_status? {r : Run} {st : Status} (h : r.status? i = some st) :
    ∃ o, r.outcome? i = some o ∧ o.status = st := by
  simpa [Run.status?] using h

theorem gateOne_idle (h : ¬ Gatable u s i) : gateOne u s i = .ok (s, false) := by
  rw [gateOne]
  split
  · rename_i hs hdeps hstage
    exact absurd ⟨hs, by rw [hdeps]; rfl, by rw [hstage]; rfl⟩ h
  · rfl

/-- What gating a stage does. It takes the stage a step further, or could not. -/
structure Gated (u : Setup) (env : Environment) (s : State) (i : Nat) (s' : State) (b : Bool) :
    Prop where
  moves : Moves u env s s'
  still : s.Still s'
  guarded : Guarded u s → Guarded u s'
  idle : b = false → s' = s ∧ ¬ Gatable u s i
  progress : b = true → s'.run.stepsLeft < s.run.stepsLeft

theorem gateOne_ok (env : Environment) (u : Setup) (s : State) (i : Nat) :
    ∃ s' b, gateOne u s i = .ok (s', b) ∧ Gated u env s i s' b := by
  by_cases h : Gatable u s i
  · obtain ⟨o, ho, hs⟩ := outcome?_of_status? h.waits
    obtain ⟨deps, hdeps⟩ := Option.isSome_iff_exists.1 h.known
    obtain ⟨stage, hstage⟩ := Option.isSome_iff_exists.1 h.stage
    have hopen : o.status.isTerminal = false := by rw [hs]; rfl
    -- whatever the gate says, the stage takes a step
    have hstep : ∀ {o'}, Life u env s i stage o o' →
        (s.run.setOutcome i o').stepsLeft < s.run.stepsLeft := fun hl => hl.run_stepsLeft_lt ho
    cases hgate : Gate.decide u.trigger stage deps with
    | ok decision =>
      cases decision with
      | allow =>
        refine ⟨s.put i o.enqueue, true, ?_, .single (.enqueue ho hstage hs hdeps hgate),
          ⟨rfl, rfl, rfl⟩, fun hg => hg.set ho hopen (fun _ => rfl) nofun, nofun, fun _ => ?_⟩
        · simp only [gateOne, h.waits, hdeps, hstage, hgate, Run.accepted_markQueued ho hs]
          rfl
        · exact hstep (.enqueue hs hdeps hgate)
      | skip reason =>
        refine ⟨s.conclude i (o.skip reason s.run.clock), true, ?_,
          .single (.conclude ho hstage (.refuse hs hdeps hgate)), ⟨rfl, rfl, rfl⟩,
          fun hg => hg.set ho hopen (fun _ => rfl) nofun, nofun, fun _ => ?_⟩
        · simp only [gateOne, h.waits, hdeps, hstage, hgate, skip_ok ho hopen]
          rfl
        · exact hstep (.ends (.refuse hs hdeps hgate))
    | error e =>
      obtain ⟨s', hs', hmoves, hstill, hguard⟩ :=
        fail_ok env ho hstage hopen (Gate.isFatal_of_decide hgate)
      refine ⟨s', true, ?_, hmoves.head (.conclude ho hstage (.misgate hs hdeps hgate)), hstill,
        hguard, nofun, fun _ => ?_⟩
      · simp only [gateOne, h.waits, hdeps, hstage, hgate, hs']
        rfl
      · exact Nat.lt_of_le_of_lt hmoves.stepsLeft_le
          (hstep (.ends (.misgate hs hdeps hgate)))
  · exact ⟨s, false, gateOne_idle h, .refl, .refl s, id, fun _ => ⟨rfl, h⟩, nofun⟩

theorem Gated.of_gateOne {b : Bool} (env : Environment) (h : gateOne u s i = .ok (s', b)) :
    Gated u env s i s' b := by
  obtain ⟨t, c, ht, hgated⟩ := gateOne_ok env u s i
  rw [h] at ht
  cases ht
  exact hgated

theorem dispatchOne_idle (h : ¬ Startable u s i) : dispatchOne u s i = .ok (s, false) := by
  rw [dispatchOne]
  split
  · rename_i stage hs hstage
    split
    · rfl
    · rename_i locks hlock
      exact absurd ⟨hs, stage, hstage, by rw [hlock]; rfl⟩ h
  · rfl

theorem spawn_ok (ho : s.run.outcome? i = some o) (hs : o.status = .queued) (locks : Locks)
    (request : CommandRequest) :
    spawn { s with locks } i request = .ok (s.launch i o locks request) := by
  simp only [spawn, Run.accepted_markRunning ho hs]
  rfl

/-- What starting a stage does. It launches the command, or the stage fails because it cannot be
prepared, or nothing could be done. -/
structure Dispatched (u : Setup) (env : Environment) (s : State) (i : Nat) (s' : State)
    (b : Bool) : Prop where
  moves : Moves u env s s'
  launched : s.Still s' ∨ ∃ o locks request, s.run.outcome? i = some o ∧ o.status = .queued ∧
    s' = s.launch i o locks request
  guarded : Guarded u s → Guarded u s'
  idle : b = false → s' = s ∧ ¬ Startable u s i
  progress : b = true → s'.run.stepsLeft < s.run.stepsLeft

theorem dispatchOne_ok (env : Environment) (u : Setup) (s : State) (i : Nat)
    (hroom : s.inFlight.length < u.workers) :
    ∃ s' b, dispatchOne u s i = .ok (s', b) ∧ Dispatched u env s i s' b := by
  by_cases h : Startable u s i
  · obtain ⟨o, ho, hs⟩ := outcome?_of_status? h.queued
    obtain ⟨stage, hstage, hfree⟩ := h.free
    obtain ⟨locks, hlock⟩ := Option.isSome_iff_exists.1 hfree
    have hopen : o.status.isTerminal = false := by rw [hs]; rfl
    have hstep : ∀ {o'}, Life u env s i stage o o' →
        (s.run.setOutcome i o').stepsLeft < s.run.stepsLeft := fun hl => hl.run_stepsLeft_lt ho
    cases hprep : prepare u s stage with
    | ok request =>
      refine ⟨s.launch i o locks request, true, ?_,
        .single (.launch ho hstage hs hroom hlock hprep),
        .inr ⟨o, locks, request, ho, hs, rfl⟩,
        fun hg => hg.set ho hopen (fun _ => rfl) nofun, nofun, fun _ => ?_⟩
      · simp only [dispatchOne, h.queued, hstage, hlock, hprep, spawn_ok ho hs]
        rfl
      · exact hstep (.launch hs hprep)
    | error e =>
      have ho' : ({ s with locks := locks.release i } : State).run.outcome? i = some o := ho
      obtain ⟨s', hs', hmoves, hstill, hguard⟩ :=
        fail_ok env ho' hstage hopen (isFatal_of_prepare hprep)
      refine ⟨s', true, ?_, hmoves.head (.unready ho hstage hs hlock hprep),
        .inl ⟨hstill.starts, hstill.flights, hstill.cancelled⟩, hguard, nofun, fun _ => ?_⟩
      · simp only [dispatchOne, h.queued, hstage, hlock, hprep, hs']
        rfl
      · exact Nat.lt_of_le_of_lt hmoves.stepsLeft_le
          (hstep (.unready hs hprep))
  · exact ⟨s, false, dispatchOne_idle h, .refl, .inl (.refl s), id, fun _ => ⟨rfl, h⟩, nofun⟩

theorem Dispatched.of_dispatchOne {b : Bool} (env : Environment)
    (hroom : s.inFlight.length < u.workers) (h : dispatchOne u s i = .ok (s', b)) :
    Dispatched u env s i s' b := by
  obtain ⟨t, c, ht, hdispatched⟩ := dispatchOne_ok env u s i hroom
  rw [h] at ht
  cases ht
  exact hdispatched

/-! ## Events -/

theorem conclude_put (s : State) (i : Nat) (a b : Outcome) :
    (s.put i a).conclude i b = s.conclude i b := by
  simp only [State.conclude, State.put, Run.setOutcome_setOutcome]

theorem complete_running (ho : s.run.outcome? i = some o) (hstage : u.stage? i = some stage)
    (hs : o.status = .running) (result : Except Error CommandOutput) :
    complete u s i result = match result with
      | .error e => fail u (s.land i) i e
      | .ok out =>
        let s := (s.land i).put i (o.log out.stdout out.stderr out.exitCode)
        if out.success then
          match (s.run.markSucceeded i (Marker.declared stage out.outputs)).accepted with
          | .error e => .error e
          | .ok run => .ok ({ s with run }.notifyFinished i)
        else if out.cancelled then skip s i .cancelled
        else
          fail u s i
            (.commandFailure stage.name (out.exitCode.getD (-1)) (Text.tail 20 out.stderr)) := by
  have hst : s.run.status? i = some .running := by rw [Run.status?, ho, Option.map_some, hs]
  cases result with
  | error e =>
    simp only [complete, hst, hstage]
    rfl
  | ok out =>
    simp only [complete, hst, hstage, Run.recordLogs_eq ho]
    rfl

section
variable {out : CommandOutput} {result : Except Error CommandOutput}

theorem complete_success (ho : s.run.outcome? i = some o) (hstage : u.stage? i = some stage)
    (hs : o.status = .running) (hsuccess : out.success = true) :
    complete u s i (.ok out) =
      (s.run.outputs.publish (s.run.graph.name i) (Marker.declared stage out.outputs)).map
        fun store => ((s.land i).publish store).conclude i
          (o.close stage (.ok out) s.run.clock) := by
  have hland : (s.land i).run.outcome? i = some o := ho
  have hlog : ((s.land i).put i (o.log out.stdout out.stderr out.exitCode)).run.outcome? i =
      some (o.log out.stdout out.stderr out.exitCode) := outcome?_put hland _
  have hmark := Run.accepted_markSucceeded hlog hs (Marker.declared stage out.outputs)
  have hsame : ((s.land i).put i (o.log out.stdout out.stderr out.exitCode)).run.outputs.publish
      (s.run.graph.name i) = s.run.outputs.publish (s.run.graph.name i) := rfl
  have hclose : o.close stage (.ok out) s.run.clock =
      (o.log out.stdout out.stderr out.exitCode).succeed (Marker.declared stage out.outputs)
        s.run.clock := by
    simp only [Outcome.close, hsuccess, if_true]
  rw [complete_running ho hstage hs]
  simp only [hsuccess, if_true, hmark]
  simp only [State.run_put, Run.graph_setOutcome, State.run_land] at hsame ⊢
  rw [hsame]
  cases s.run.outputs.publish (s.run.graph.name i) (Marker.declared stage out.outputs) with
  | error e => rfl
  | ok store =>
    have hlog' : (((s.land i).publish store).put i
        (o.log out.stdout out.stderr out.exitCode)).run.outcome? i =
        some (o.log out.stdout out.stderr out.exitCode) := hlog
    simp only [Except.map]
    rw [hclose, ← conclude_put, ← notifyFinished_put hlog']
    rfl

theorem complete_cancelled (ho : s.run.outcome? i = some o) (hstage : u.stage? i = some stage)
    (hs : o.status = .running) (hsuccess : out.success = false)
    (hcancelled : out.cancelled = true) :
    complete u s i (.ok out) =
      .ok ((s.land i).conclude i (o.close stage (.ok out) s.run.clock)) := by
  have hland : (s.land i).run.outcome? i = some o := ho
  have hlog : ((s.land i).put i (o.log out.stdout out.stderr out.exitCode)).run.outcome? i =
      some (o.log out.stdout out.stderr out.exitCode) := outcome?_put hland _
  have hopen : (o.log out.stdout out.stderr out.exitCode).status.isTerminal = false := by
    simp only [Outcome.log, hs]
    rfl
  have hclose : o.close stage (.ok out) s.run.clock =
      (o.log out.stdout out.stderr out.exitCode).skip .cancelled s.run.clock := by
    simp only [Outcome.close, hsuccess, hcancelled, if_true]
    rfl
  rw [complete_running ho hstage hs, hclose, ← conclude_put]
  simp only [hsuccess, hcancelled, if_true, skip_ok hlog hopen]
  rfl

theorem complete_failed (env : Environment) (ho : s.run.outcome? i = some o)
    (hstage : u.stage? i = some stage) (hs : o.status = .running) (hsuccess : out.success = false)
    (hcancelled : out.cancelled = false) :
    ∃ s', complete u s i (.ok out) = .ok s' ∧
      Moves u env ((s.land i).conclude i (o.close stage (.ok out) s.run.clock)) s' ∧
      (s.land i).Still s' ∧ (Guarded u s → Guarded u s') := by
  have hland : (s.land i).run.outcome? i = some o := ho
  have hlog : ((s.land i).put i (o.log out.stdout out.stderr out.exitCode)).run.outcome? i =
      some (o.log out.stdout out.stderr out.exitCode) := outcome?_put hland _
  have hopen : o.status.isTerminal = false := by rw [hs]; rfl
  have hclose : o.close stage (.ok out) s.run.clock =
      (o.log out.stdout out.stderr out.exitCode).fail (.commandFailure stage.name
        (out.exitCode.getD (-1)) (Text.tail 20 out.stderr)) s.run.clock := by
    simp only [Outcome.close, hsuccess, hcancelled]
    rfl
  have hfatal : (Error.commandFailure stage.name (out.exitCode.getD (-1))
    (Text.tail 20 out.stderr)).isFatal = false := rfl
  obtain ⟨s', hs', hmoves, hstill, hguard⟩ := fail_ok env hlog hstage hopen hfatal
  refine ⟨s', ?_, ?_, ⟨hstill.starts, hstill.flights, hstill.cancelled⟩, fun hg => hguard ?_⟩
  · rw [complete_running ho hstage hs]
    simp only [hsuccess, hcancelled]
    exact hs'
  · rw [conclude_put] at hmoves
    rw [hclose]
    exact hmoves
  · refine hg.set ho hopen (fun _ => rfl) fun hf => ?_
    simp only [Outcome.log, hs] at hf
    cases hf

theorem complete_idle (h : ∀ o stage, s.run.outcome? i = some o → u.stage? i = some stage →
    o.status ≠ .running) : complete u s i result = .ok (s.land i) := by
  simp only [complete]
  split
  · rename_i stage hst hstage
    obtain ⟨o, ho, hs⟩ := outcome?_of_status? hst
    exact absurd hs (h o stage ho hstage)
  · rfl

structure Completed (u : Setup) (env : Environment) (s : State) (i : Nat) (s' : State) : Prop where
  moves : Moves u env s s'
  still : (s.land i).Still s'
  guarded : Guarded u s → Guarded u s'

/-- A result is applied, unless it makes the run unusable or publishes a second time. -/
theorem complete_ok {c : InFlight} (hc : c ∈ s.inFlight) (hans : env.answers c result) :
    (∃ s', complete u s c.stage result = .ok s' ∧ Completed u env s c.stage s') ∨
    ∃ e, complete u s c.stage result = .error e ∧
      (result = .error e ∧ e.isFatal = true ∨
        ∃ o stage values, s.run.outcome? c.stage = some o ∧ o.status = .running ∧
          u.stage? c.stage = some stage ∧ stage.published? result = some values ∧
          s.run.outputs.publish (s.run.graph.name c.stage) values = .error e) := by
  by_cases hrun : ∃ o stage, s.run.outcome? c.stage = some o ∧ u.stage? c.stage = some stage ∧
      o.status = .running
  · obtain ⟨o, stage, ho, hstage, hs⟩ := hrun
    have hopen : o.status.isTerminal = false := by rw [hs]; rfl
    have hland : (s.land c.stage).run.outcome? c.stage = some o := ho
    -- a result that publishes nothing leaves the store as it is
    have hfinish : stage.published? result = none →
        Move u env s ((s.land c.stage).conclude c.stage (o.close stage result s.run.clock)) := by
      intro hp
      have hstore : s.run.outputs.receive (s.run.graph.name c.stage)
          (stage.published? result) = .ok s.run.outputs := by rw [hp]; rfl
      exact Move.finish ho hstage hs hc rfl hans hstore
    cases result with
    | error e =>
      have heq := complete_running ho hstage hs (.error e)
      cases he : e.isFatal with
      | true =>
        refine .inr ⟨e, ?_, .inl ⟨rfl, he⟩⟩
        simp only [heq, fail, he, if_true]
      | false =>
        obtain ⟨s', hs', hmoves, hstill, hguard⟩ := fail_ok env hland hstage hopen he
        exact .inl ⟨s', heq.trans hs', hmoves.head (hfinish rfl), hstill, hguard⟩
    | ok out =>
      cases hsuccess : out.success with
      | true =>
        have hp : stage.published? (.ok out) = some (Marker.declared stage out.outputs) := by
          simp only [Stage.published?, hsuccess, if_true]
        have heq := complete_success ho hstage hs hsuccess
        cases hpub : s.run.outputs.publish (s.run.graph.name c.stage)
            (Marker.declared stage out.outputs) with
        | error e =>
          rw [hpub] at heq
          exact .inr ⟨e, heq, .inr ⟨o, stage, _, ho, hs, hstage, hp, hpub⟩⟩
        | ok store =>
          rw [hpub] at heq
          refine .inl ⟨_, heq, .single (.finish ho hstage hs hc rfl hans (by rw [hp]; exact hpub)),
            ⟨rfl, rfl, rfl⟩, fun hg => hg.set ho hopen (fun _ => rfl) fun hf => ?_⟩
          rw [(Outcome.close_of_published? hp o s.run.clock).1] at hf
          cases hf
      | false =>
        have hp : stage.published? (.ok out) = none := by
          simp only [Stage.published?, hsuccess]
          rfl
        cases hcancelled : out.cancelled with
        | true =>
          refine .inl ⟨_, complete_cancelled ho hstage hs hsuccess hcancelled,
            .single (hfinish hp), ⟨rfl, rfl, rfl⟩,
            fun hg => hg.set ho hopen (fun _ => rfl) fun hf => ?_⟩
          simp only [Outcome.close, hsuccess, hcancelled, if_true] at hf
          cases hf
        | false =>
          obtain ⟨s', hs', hmoves, hstill, hguard⟩ :=
            complete_failed env ho hstage hs hsuccess hcancelled
          exact .inl ⟨s', hs', hmoves.head (hfinish hp), hstill, hguard⟩
  · have hidle : ∀ o stage, s.run.outcome? c.stage = some o → u.stage? c.stage = some stage →
        o.status ≠ .running := fun o stage ho hstage hs => hrun ⟨o, stage, ho, hstage, hs⟩
    exact .inl ⟨s.land c.stage, complete_idle hidle, .single (.drop hc hidle), .refl _, id⟩

theorem Completed.of_complete {c : InFlight} (hc : c ∈ s.inFlight) (hans : env.answers c result)
    (h : complete u s c.stage result = .ok s') : Completed u env s c.stage s' := by
  rcases complete_ok (u := u) hc hans with ⟨t, ht, hcompleted⟩ | ⟨e, he, _⟩
  · rw [h] at ht
    cases ht
    exact hcompleted
  · rw [h] at he
    cases he

end

/-- What a cancel does: it ends every stage that has not ended. -/
structure Withdrawn (u : Setup) (env : Environment) (s s' : State) : Prop where
  moves : env.cancels → Moves u env s s'
  still : s.ask.Still s'
  ended : ∀ j ∈ u.order, ∀ stage o, u.stage? j = some stage → s'.run.outcome? j = some o →
    o.status.isTerminal = true

theorem cancel_ok (env : Environment) (u : Setup) (s : State) (hc : s.run.cancelled = false) :
    ∃ s', cancel u s = .ok s' ∧ Withdrawn u env s s' := by
  obtain ⟨mid, hmid, hskips, hrest⟩ := abort_ok u s.ask .cancelled false
  have hmoves : Moves u env s.ask mid ∧ mid.run.cancelled = true := by
    clear hmid hrest
    induction hskips with
    | refl => exact ⟨.refl, rfl⟩
    | tail _ hskip ih =>
      obtain ⟨hmoves, hcancelled⟩ := ih
      obtain ⟨i, stage, o, hstage, ho, ht, rfl⟩ := hskip
      exact ⟨hmoves.tail (.conclude ho hstage (.withdraw (isAborted_open ht) hcancelled)),
        hcancelled⟩
  refine ⟨mid.fireSignals, ?_, fun henv => (hmoves.1.head (.ask henv)).tail .signal,
    (still_of_skips hskips).trans (State.still_fireSignals mid), ?_⟩
  · simp only [cancel, hc]
    exact hmid
  · intro j hj stage o hstage ho
    have := hrest j hj stage o hstage ho
    simpa [isAborted] using this

theorem Withdrawn.of_cancel (env : Environment) (hc : s.run.cancelled = false)
    (h : cancel u s = .ok s') : Withdrawn u env s s' := by
  obtain ⟨t, ht, hwithdrawn⟩ := cancel_ok env u s hc
  rw [h] at ht
  cases ht
  exact hwithdrawn

/-! ## Steps of the driver -/

theorem moves_of_step {x y : Point} (h : Step u env x y) : Moves u env x.state y.state := by
  cases h with
  | begin | gated | full | again | settled => exact .refl
  | gate h => exact (Gated.of_gateOne env h).moves
  | dispatch hroom h => exact (Dispatched.of_dispatchOne env hroom h).moves
  | @join c result now s s' hc hans hnow h =>
    have hc' : c ∈ (s.wakeAt now).inFlight := hc
    exact (Completed.of_complete hc' hans h).moves.head (.wake hnow)
  | @cancelEarly now s s' henv hc hnow h | @cancel now s s' henv hc _ hnow h =>
    have hc' : (s.wakeAt now).run.cancelled = false := hc
    exact ((Withdrawn.of_cancel env hc' h).moves henv).head (.wake hnow)

theorem moves_of_steps {x y : Point} (h : Steps u env x y) : Moves u env x.state y.state := by
  induction h with
  | refl => exact .refl
  | tail _ hstep ih => exact ih.trans (moves_of_step hstep)

/-- What a step of the driver does to the commands in flight and to the request to cancel. -/
inductive Effect (u : Setup) (s s' : State) : Prop where
  | settle : s.Still s' → (Guarded u s → Guarded u s') → Effect u s s'
  | launch {i : Nat} {o : Outcome} :
      s.run.outcome? i = some o → o.status = .queued → s'.starts = i :: s.starts →
      s'.run.cancelled = s.run.cancelled → (Guarded u s → Guarded u s') → Effect u s s'
  | land {i : Nat} : (s.land i).Still s' → (Guarded u s → Guarded u s') → Effect u s s'
  | cancel : s.ask.Still s' →
      (∀ k ∈ u.order, ∀ stage o, u.stage? k = some stage → s'.run.outcome? k = some o →
        o.status.isTerminal = true) → Effect u s s'

theorem Step.effect {x y : Point} (h : Step u env x y) : Effect u x.state y.state := by
  cases h with
  | begin | gated | full | again | settled => exact .settle (.refl _) id
  | gate h =>
    have hgated := Gated.of_gateOne env h
    exact .settle hgated.still hgated.guarded
  | dispatch hroom h =>
    have hdispatched := Dispatched.of_dispatchOne env hroom h
    rcases hdispatched.launched with hstill | ⟨o, locks, request, ho, hs, rfl⟩
    · exact .settle hstill hdispatched.guarded
    · exact .launch ho hs (State.starts_launch ..) rfl hdispatched.guarded
  | @join c result now s s' hc hans hnow h =>
    have hc' : c ∈ (s.wakeAt now).inFlight := hc
    have hcompleted := Completed.of_complete hc' hans h
    have hstill := hcompleted.still
    exact .land (i := c.stage) ⟨hstill.starts, hstill.flights, hstill.cancelled⟩
      hcompleted.guarded
  | @cancelEarly now s s' henv hc hnow h | @cancel now s s' henv hc _ hnow h =>
    have hc' : (s.wakeAt now).run.cancelled = false := hc
    have hwithdrawn := Withdrawn.of_cancel env hc' h
    have hstill := hwithdrawn.still
    exact .cancel ⟨hstill.starts, hstill.flights, hstill.cancelled⟩ hwithdrawn.ended

/-- What moves preserve holds at every reachable point. -/
theorem Reachable.induct {x : Point} (h : Reachable u env x) (motive : State → Prop)
    (start : motive (State.start u))
    (move : ∀ s s', motive s → Move u env s s' → motive s') : motive x.state := by
  have hmoves : ∀ s', Moves u env (State.start u) s' → motive s' := by
    intro s' h
    induction h with
    | refl => exact start
    | tail _ hm ih => exact move _ _ ih hm
  exact hmoves x.state (moves_of_steps h)

end Scheduler
end Conveyor
