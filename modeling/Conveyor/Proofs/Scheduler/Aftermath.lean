import Conveyor.Proofs.Scheduler.Completion

/-!
# Conveyor.Proofs.Scheduler.Aftermath

What a step of the driver leaves behind, exactly.

Moves say what may happen to a stage; here it is said what does happen to all of them. A pass over
the stages skips those that satisfy its test, as they are when it begins, and no others. So the
failure of a stage takes along those that fall with it, each with the failed stage as its reason,
and leaves the rest alone.

* `Culled`    — what a pass leaves.
* `Aftermath` — what the failure of a stage that must not fail leaves of the others.
* `AllBut`    — nothing has changed but one stage, whose command is not in flight any more.
* `Turn`, `Step.turn` — what a step leaves of the stages and of the commands in flight.
* `Change`    — what a turn does to one stage.
-/

namespace Conveyor

/-! ## Reasons of gates -/

/-- A gate gives a reason of its own. -/
def SkipReason.ofGate : SkipReason → Bool
  | .failFast _ | .cancelled => false
  | _ => true

theorem Gate.ofGate_of_decide {t : Trigger} {stage : Stage} {deps : Dependencies}
    {reason : SkipReason} (h : Gate.decide t stage deps = .ok (.skip reason)) :
    reason.ofGate = true := by
  have hanswers : Gate.Answers t stage deps (.ok (.skip reason)) := h ▸ Gate.answers
  cases hanswers <;> rfl

namespace Scheduler

variable {u : Setup} {env : Environment} {s s' b : State} {i j : Nat} {stage cause : Stage}
  {o o' : Outcome} {x y : Point}

/-! ## Passes -/

section
variable {test : Stage → Status → Bool} {reason : SkipReason}

/-- What a pass leaves: the stages that satisfy its test are skipped, and nothing else changes. -/
structure Culled (u : Setup) (test : Stage → Status → Bool) (reason : SkipReason)
    (s s' : State) : Prop where
  hit : ∀ j stage o, u.stage? j = some stage → s.run.outcome? j = some o →
    test stage o.status = true → s'.run.outcome? j = some (o.skip reason s.run.clock)
  missed : ∀ j stage o, u.stage? j = some stage → s.run.outcome? j = some o →
    test stage o.status = false → s'.run.outcome? j = some o
  starts : s'.starts = s.starts
  inFlight : s'.inFlight = s.inFlight
  signal : s'.signal = s.signal
  clock : s'.run.clock = s.run.clock

theorem kept_of_skips (h : Relation.ReflTransGen (Skips u test reason) s s') :
    s'.inFlight = s.inFlight ∧ s'.signal = s.signal ∧ s'.run.clock = s.run.clock := by
  induction h with
  | refl => exact ⟨rfl, rfl, rfl⟩
  | tail _ hskip ih =>
    obtain ⟨_, _, _, _, _, _, rfl⟩ := hskip
    exact ih

/-- A stage is skipped once at most, and then it satisfied the test from the start. -/
theorem outcome?_after_skips
    (htest : ∀ stage status, test stage status = true → status.isTerminal = false)
    (h : Relation.ReflTransGen (Skips u test reason) s s') (ho : s.run.outcome? j = some o) :
    s'.run.outcome? j = some o ∨ ∃ stage, u.stage? j = some stage ∧ test stage o.status = true ∧
      s'.run.outcome? j = some (o.skip reason s.run.clock) := by
  induction h with
  | refl => exact .inl ho
  | @tail mid _ hbefore hskip ih =>
    obtain ⟨i, stage, a, hstage, ha, ht, rfl⟩ := hskip
    rw [State.run_conclude, Run.outcome?_setOutcome ha]
    by_cases hj : j = i
    · subst hj
      rw [if_pos rfl]
      rcases ih with hsame | ⟨_, _, _, hskipped⟩
      · rw [hsame] at ha
        cases ha
        exact .inr ⟨stage, hstage, ht, by rw [(kept_of_skips hbefore).2.2]⟩
      · rw [hskipped] at ha
        cases ha
        cases htest stage _ ht
    · rw [if_neg hj]
      exact ih

theorem culled_of_skips (hu : u.Accepted)
    (htest : ∀ stage status, test stage status = true → status.isTerminal = false)
    (hskips : Relation.ReflTransGen (Skips u test reason) s s')
    (hrest : ∀ j ∈ u.order, ∀ stage o, u.stage? j = some stage → s'.run.outcome? j = some o →
      test stage o.status = false) : Culled u test reason s s' := by
  obtain ⟨hflights, hsignal, hclock⟩ := kept_of_skips hskips
  refine ⟨?_, ?_, (still_of_skips hskips).starts, hflights, hsignal, hclock⟩
  · intro j stage o hstage ho ht
    rcases outcome?_after_skips htest hskips ho with hsame | ⟨_, _, _, hskipped⟩
    · rw [hrest j (hu.mem_order hstage) stage o hstage hsame] at ht
      cases ht
    · exact hskipped
  · intro j stage o hstage ho hmiss
    rcases outcome?_after_skips htest hskips ho with hsame | ⟨stage', hstage', ht, _⟩
    · exact hsame
    · rw [hstage] at hstage'
      cases hstage'
      rw [hmiss] at ht
      cases ht

end

theorem Culled.cases {test : Stage → Status → Bool} {reason : SkipReason}
    (h : Culled u test reason s s') (hstage : u.stage? j = some stage)
    (ho : s.run.outcome? j = some o) :
    test stage o.status = false ∧ s'.run.outcome? j = some o ∨
      test stage o.status = true ∧ s'.run.outcome? j = some (o.skip reason s.run.clock) := by
  cases ht : test stage o.status with
  | true => exact .inr ⟨rfl, h.hit j stage o hstage ho ht⟩
  | false => exact .inl ⟨rfl, h.missed j stage o hstage ho ht⟩

theorem abort_culled (hu : u.Accepted) {reason : SkipReason} {spare : Bool}
    (h : abort u s reason spare = .ok s') :
    ∃ mid, s' = mid.fireSignals ∧ Culled u (isAborted spare) reason s mid := by
  obtain ⟨mid, hmid, hskips, hrest⟩ := abort_ok u s reason spare
  rw [hmid] at h
  cases h
  exact ⟨mid, rfl, culled_of_skips hu (fun _ _ => isAborted_open) hskips hrest⟩

theorem isAborted_running (spare : Bool) (stage : Stage) :
    isAborted spare stage .running = true := by
  simp [isAborted, Status.isTerminal]

theorem Culled.not_running {spare : Bool} {reason : SkipReason}
    (h : Culled u (isAborted spare) reason s s') (hstage : u.stage? j = some stage)
    (ho : s.run.outcome? j = some o) : s'.run.status? j ≠ some .running := by
  intro hrun
  obtain ⟨o', ho', hs'⟩ := outcome?_of_status? hrun
  rcases h.cases hstage ho with ⟨hmiss, hkept⟩ | ⟨_, hskipped⟩
  · rw [ho'] at hkept
    cases hkept
    rw [hs', isAborted_running] at hmiss
    cases hmiss
  · rw [ho'] at hskipped
    cases hskipped
    cases hs'

/-! ## Failures -/

/-- The stage has the fail-fast group of the cause and falls with it. -/
def fallsBeside (cause stage : Stage) (status : Status) : Bool :=
  match cause.failFastGroup with
  | none => false
  | some group => fallsWith group stage status

theorem falls_iff {status : Status} : Falls u cause stage status ↔
    fallsBeside cause stage status = true ∨
      u.pipeline.settings.failFast = true ∧ isAborted true stage status = true := by
  unfold Falls fallsBeside
  cases cause.failFastGroup <;> simp

theorem Falls.open_ {status : Status} (h : Falls u cause stage status) :
    status.isTerminal = false := by
  rcases h with ⟨group, _, hfall⟩ | ⟨_, habort⟩
  · exact fallsWith_open hfall
  · exact isAborted_open habort

theorem Falls.waits {status : Status} (h : Falls u cause stage status)
    (hff : u.pipeline.settings.failFast = false) : status.waits = true := by
  rcases h with ⟨group, _, hfall⟩ | ⟨hon, _⟩
  · simp only [fallsWith, Bool.and_eq_true, Bool.or_eq_true, decide_eq_true_eq] at hfall
    rcases hfall.1.1 with rfl | rfl <;> rfl
  · rw [hff] at hon
    cases hon

theorem failGroup_culled (hu : u.Accepted) (h : failGroup u s cause = .ok s') :
    Culled u (fallsBeside cause) (.failFast cause.name) s s' := by
  unfold failGroup at h
  cases hgroup : cause.failFastGroup with
  | none =>
    rw [hgroup] at h
    cases h
    have hnever : ∀ stage status, fallsBeside cause stage status = false := by
      intro stage status
      rw [fallsBeside, hgroup]
    refine ⟨?_, fun _ _ _ _ ho _ => ho, rfl, rfl, rfl, rfl⟩
    intro j stage o _ _ ht
    rw [hnever] at ht
    cases ht
  | some group =>
    rw [hgroup] at h
    have htest : ∀ stage status, fallsWith group stage status = true →
        status.isTerminal = false := fun _ _ => fallsWith_open
    obtain ⟨t, ht, hskips, hrest⟩ := skipWhere_ok u (.failFast cause.name) htest u.order s
    simp only [ht] at h
    cases h
    have hsame : fallsBeside cause = fallsWith group := by
      funext stage status
      rw [fallsBeside, hgroup]
    rw [hsame]
    exact culled_of_skips hu htest hskips hrest

/-- What the failure of a stage that must not fail leaves of the others. -/
structure Aftermath (u : Setup) (cause : Stage) (s s' : State) : Prop where
  taken : ∀ j stage o, u.stage? j = some stage → s.run.outcome? j = some o →
    Falls u cause stage o.status →
      s'.run.outcome? j = some (o.skip (.failFast cause.name) s.run.clock)
  spared : ∀ j stage o, u.stage? j = some stage → s.run.outcome? j = some o →
    ¬ Falls u cause stage o.status → s'.run.outcome? j = some o
  starts : s'.starts = s.starts
  clock : s'.run.clock = s.run.clock
  quiet : u.pipeline.settings.failFast = false →
    s'.inFlight = s.inFlight ∧ s'.signal = s.signal
  alarm : u.pipeline.settings.failFast = true →
    s'.inFlight = s.fireSignals.inFlight ∧ s'.signal = s.fireSignals.signal

theorem aftermath_of_failFast (hu : u.Accepted) (h : failFast u s cause = .ok s') :
    Aftermath u cause s s' := by
  rw [failFast_eq] at h
  cases hmid : failGroup u s cause with
  | error e =>
    rw [hmid] at h
    cases h
  | ok mid =>
    have hgroup := failGroup_culled hu hmid
    simp only [hmid] at h
    cases hff : u.pipeline.settings.failFast with
    | false =>
      rw [hff] at h
      cases h
      refine ⟨?_, ?_, hgroup.starts, hgroup.clock, fun _ => ⟨hgroup.inFlight, hgroup.signal⟩,
        fun h => absurd (hff.symm.trans h) nofun⟩
      · intro j stage o hstage ho hfall
        refine hgroup.hit j stage o hstage ho ((falls_iff.1 hfall).resolve_right ?_)
        simp [hff]
      · intro j stage o hstage ho hfall
        exact hgroup.missed j stage o hstage ho
          (Bool.eq_false_iff.2 fun ht => hfall (falls_iff.2 (.inl ht)))
    | true =>
      rw [hff] at h
      obtain ⟨last, rfl, hall⟩ := abort_culled hu h
      refine ⟨?_, ?_, hall.starts.trans hgroup.starts, hall.clock.trans hgroup.clock,
        fun h => absurd (hff.symm.trans h) nofun, fun _ => ?_⟩
      · intro j stage o hstage ho hfall
        rcases hgroup.cases hstage ho with ⟨hmiss, hkept⟩ | ⟨_, hskipped⟩
        · have habort := ((falls_iff.1 hfall).resolve_left (by simp [hmiss])).2
          rw [← hgroup.clock]
          exact hall.hit j stage o hstage hkept habort
        · -- what the first pass has skipped is left alone by the second
          exact hall.missed j stage _ hstage hskipped rfl
      · intro j stage o hstage ho hfall
        have hneither := fun h => hfall (falls_iff.2 h)
        have hkept := hgroup.missed j stage o hstage ho
          (Bool.eq_false_iff.2 fun ht => hneither (.inl ht))
        exact hall.missed j stage o hstage hkept
          (Bool.eq_false_iff.2 fun ht => hneither (.inr ⟨hff, ht⟩))
      · simp only [State.fireSignals, hall.inFlight, hall.signal, hall.clock, hgroup.inFlight,
          hgroup.signal, hgroup.clock, and_self]

theorem Aftermath.cases (h : Aftermath u cause s s') (hstage : u.stage? j = some stage)
    (ho : s.run.outcome? j = some o) :
    ¬ Falls u cause stage o.status ∧ s'.run.outcome? j = some o ∨
      Falls u cause stage o.status ∧
        s'.run.outcome? j = some (o.skip (.failFast cause.name) s.run.clock) := by
  by_cases hfall : Falls u cause stage o.status
  · exact .inr ⟨hfall, h.taken j stage o hstage ho hfall⟩
  · exact .inl ⟨hfall, h.spared j stage o hstage ho hfall⟩

theorem Aftermath.not_running (h : Aftermath u cause s s')
    (hff : u.pipeline.settings.failFast = true) (hstage : u.stage? j = some stage)
    (ho : s.run.outcome? j = some o) : s'.run.status? j ≠ some .running := by
  intro hrun
  obtain ⟨o', ho', hs'⟩ := outcome?_of_status? hrun
  rcases h.cases hstage ho with ⟨hmiss, hkept⟩ | ⟨_, hskipped⟩
  · rw [ho'] at hkept
    cases hkept
    rw [hs'] at hmiss
    exact hmiss (.inr ⟨hff, isAborted_running true stage⟩)
  · rw [ho'] at hskipped
    cases hskipped
    cases hs'

/-- A failure concerns the failed stage only if that may fail. -/
theorem fail_cases (hu : u.Accepted) (ho : s.run.outcome? i = some o)
    (hstage : u.stage? i = some cause) (hs : o.status.isTerminal = false) {e : Error}
    (h : fail u s i e = .ok s') :
    cause.allowFailure = true ∧ s' = s.conclude i (o.fail e s.run.clock) ∨
      cause.allowFailure = false ∧ Aftermath u cause (s.conclude i (o.fail e s.run.clock)) s' := by
  have hrec : { s with run := s.run.setOutcome i (o.fail e s.run.clock) }.notifyFinished i =
      s.conclude i (o.fail e s.run.clock) := notifyFinished_put ho _
  rw [fail] at h
  split at h
  · cases h
  · simp only [hstage, Run.accepted_markFailed ho hs, hrec] at h
    split at h
    · rename_i hallow
      cases h
      exact .inl ⟨hallow, rfl⟩
    · rename_i hallow
      exact .inr ⟨by simpa using hallow, aftermath_of_failFast hu h⟩

/-! ## Turns -/

/-- Nothing has changed but one stage, and its command is not in flight any more. -/
structure AllBut (i : Nat) (s s' : State) : Prop where
  others : ∀ j, j ≠ i → s'.run.outcome? j = s.run.outcome? j
  starts : s'.starts = s.starts
  inFlight : s'.inFlight = s.inFlight.filter fun c => c.stage ≠ i
  signal : s'.signal = s.signal

namespace AllBut

theorem put (h : AllBut i s b) (ho : b.run.outcome? i = some o) (o' : Outcome) :
    AllBut i s (b.put i o') := by
  refine ⟨?_, h.starts, h.inFlight, h.signal⟩
  intro j hj
  rw [State.run_put, Run.outcome?_setOutcome ho, if_neg hj]
  exact h.others j hj

theorem conclude (h : AllBut i s b) (ho : b.run.outcome? i = some o) (o' : Outcome) :
    AllBut i s (b.conclude i o') :=
  ⟨(h.put ho o').others, h.starts, h.inFlight, h.signal⟩

theorem of_waiting (ht : Traffic u s) (ho : s.run.outcome? i = some o)
    (hs : o.status.waits = true) (locks : Locks) : AllBut i s { s with locks } := by
  refine ⟨fun _ _ => rfl, rfl, ?_, rfl⟩
  refine (List.filter_eq_self.2 fun c hc => decide_eq_true ?_).symm
  rintro rfl
  exact ht.not_mem_flights ho hs (List.mem_map_of_mem hc)

end AllBut

/-- What becomes of a stage by itself: if it fails, it may, and it does not fall. -/
structure ByItself (u : Setup) (i : Nat) (o : Outcome) : Prop where
  excused : o.status = .failed → ∃ stage, u.stage? i = some stage ∧ stage.allowFailure = true
  upright : o.status = .skipped → ∀ name, o.skipReason ≠ some (.failFast name)

theorem ByItself.of_ne (hfailed : o.status ≠ .failed) (hskipped : o.status ≠ .skipped) :
    ByItself u i o :=
  ⟨fun hs => absurd hs hfailed, fun hs => absurd hs hskipped⟩

theorem byItself_of_allowed (hstage : u.stage? i = some stage)
    (hallow : stage.allowFailure = true) (hs : o.status = .failed) : ByItself u i o := by
  refine ⟨fun _ => ⟨stage, hstage, hallow⟩, fun hskipped => ?_⟩
  rw [hs] at hskipped
  cases hskipped

theorem byItself_of_skip {reason : SkipReason} (h : ∀ name, reason ≠ .failFast name) (u : Setup)
    (i : Nat) (o : Outcome) (now : Nat) : ByItself u i (o.skip reason now) := by
  refine ⟨fun hs => ?_, fun _ name hname => h name (Option.some.inj hname)⟩
  cases hs

/-- What a step of the driver leaves of the stages and of the commands in flight. -/
inductive Turn (u : Setup) (s s' : State) : Prop where
  | rest : s' = s → Turn u s s'
  /-- Something happens to one stage, or to its command after its end. -/
  | alone {i : Nat} {o' : Outcome} :
      AllBut i s s' → s'.run.outcome? i = some o' → o'.status ≠ .running →
      s.run.outcome? i = some o' ∨ ByItself u i o' → Turn u s s'
  | launch {i : Nat} {stage : Stage} {o : Outcome} {locks : Locks} {request : CommandRequest} :
      s.run.outcome? i = some o → o.status = .queued → prepare u s stage = .ok request →
      s' = s.launch i o locks request → Turn u s s'
  | fail {i : Nat} {cause : Stage} {o o' : Outcome} {b : State} :
      u.stage? i = some cause → cause.allowFailure = false →
      s.run.outcome? i = some o → o.status.isTerminal = false → AllBut i s b →
      b.run.outcome? i = some o' → o'.status = .failed → Aftermath u cause b s' → Turn u s s'
  | cancel {b mid : State} :
      (∀ j, b.run.outcome? j = s.run.outcome? j) → b.starts = s.starts →
      b.inFlight = s.inFlight → b.signal = s.signal →
      Culled u (isAborted false) .cancelled b mid → s' = mid.fireSignals → Turn u s s'

theorem turn_of_fail (hu : u.Accepted) (hb : AllBut i s b)
    (hopen : ∃ a, s.run.outcome? i = some a ∧ a.status.isTerminal = false)
    (ho : b.run.outcome? i = some o) (hstage : u.stage? i = some stage)
    (hs : o.status.isTerminal = false) {e : Error} (h : fail u b i e = .ok s') : Turn u s s' := by
  obtain ⟨a, ha, has⟩ := hopen
  have hfailed : (b.conclude i (o.fail e b.run.clock)).run.outcome? i =
      some (o.fail e b.run.clock) := outcome?_put ho _
  rcases fail_cases hu ho hstage hs h with ⟨hallow, rfl⟩ | ⟨hallow, hafter⟩
  · exact .alone (hb.conclude ho _) hfailed (by simp) (.inr (byItself_of_allowed hstage hallow rfl))
  · exact .fail hstage hallow ha has (hb.conclude ho _) hfailed rfl hafter

theorem turn_of_gateOne (hu : u.Accepted) (ht : Traffic u s) {p : Bool}
    (h : gateOne u s i = .ok (s', p)) : Turn u s s' := by
  by_cases hg : Gatable u s i
  · obtain ⟨o, ho, hs⟩ := outcome?_of_status? hg.waits
    obtain ⟨deps, hdeps⟩ := Option.isSome_iff_exists.1 hg.known
    obtain ⟨stage, hstage⟩ := Option.isSome_iff_exists.1 hg.stage
    have hopen : o.status.isTerminal = false := by rw [hs]; rfl
    have hsame : AllBut i s s := .of_waiting ht ho (by rw [hs]; rfl) s.locks
    simp only [gateOne, hg.waits, hdeps, hstage] at h
    split at h
    · simp only [Run.accepted_markQueued ho hs] at h
      cases h
      exact .alone (hsame.put ho _) (outcome?_put ho o.enqueue) (by simp)
        (.inr (.of_ne (by simp) (by simp)))
    · rename_i reason hgate
      simp only [skip_ok ho hopen] at h
      cases h
      have hown : ∀ name, reason ≠ .failFast name := by
        rintro name rfl
        cases Gate.ofGate_of_decide hgate
      exact .alone (hsame.conclude ho _) (outcome?_put ho _) (by simp)
        (.inr (byItself_of_skip hown ..))
    · rename_i e _
      cases hfail : fail u s i e with
      | error e => rw [hfail] at h; cases h
      | ok t =>
        rw [hfail] at h
        cases h
        exact turn_of_fail hu hsame ⟨o, ho, hopen⟩ ho hstage hopen hfail
  · rw [gateOne_idle hg] at h
    cases h
    exact .rest rfl

theorem turn_of_dispatchOne (hu : u.Accepted) (ht : Traffic u s) {p : Bool}
    (h : dispatchOne u s i = .ok (s', p)) : Turn u s s' := by
  by_cases hd : Startable u s i
  · obtain ⟨o, ho, hs⟩ := outcome?_of_status? hd.queued
    obtain ⟨stage, hstage, hfree⟩ := hd.free
    obtain ⟨locks, hlock⟩ := Option.isSome_iff_exists.1 hfree
    have hopen : o.status.isTerminal = false := by rw [hs]; rfl
    simp only [dispatchOne, hd.queued, hstage, hlock] at h
    split at h
    · rename_i request hprep
      simp only [spawn_ok ho hs] at h
      cases h
      exact .launch ho hs hprep rfl
    · rename_i e _
      cases hfail : fail u { s with locks := locks.release i } i e with
      | error e => rw [hfail] at h; cases h
      | ok t =>
        rw [hfail] at h
        cases h
        have hb := AllBut.of_waiting ht ho (by rw [hs]; rfl) (locks.release i)
        exact turn_of_fail hu hb ⟨o, ho, hopen⟩ ho hstage hopen hfail
  · rw [dispatchOne_idle hd] at h
    cases h
    exact .rest rfl

theorem byItself_of_close {out : CommandOutput} (h : out.success = true ∨ out.cancelled = true)
    (u : Setup) (i : Nat) (o : Outcome) (stage : Stage) (now : Nat) :
    ByItself u i (o.close stage (.ok out) now) := by
  simp only [Outcome.close]
  split
  · exact .of_ne (by simp) (by simp)
  · rename_i hsuccess
    rw [if_pos (h.resolve_left hsuccess)]
    exact byItself_of_skip (by simp) ..

theorem turn_of_complete (hu : u.Accepted) (ht : Traffic u s) {now : Nat} {c : InFlight}
    {result : Except Error CommandOutput} (hc : c ∈ s.inFlight)
    (h : complete u (s.wakeAt now) c.stage result = .ok s') : Turn u s s' := by
  obtain ⟨o, ho, hdeparted⟩ := ht.flying c.stage (List.mem_map_of_mem hc)
  obtain ⟨stage, hstage⟩ := ht.known c.stage (List.mem_map_of_mem hc)
  have hwake : (s.wakeAt now).run.outcome? c.stage = some o := ho
  have hlanded : ((s.wakeAt now).land c.stage).run.outcome? c.stage = some o := ho
  have hland : AllBut c.stage s ((s.wakeAt now).land c.stage) :=
    ⟨fun _ _ => rfl, rfl, rfl, rfl⟩
  by_cases hs : o.status = .running
  · have hopen : o.status.isTerminal = false := by rw [hs]; rfl
    have hrunning := complete_running hwake hstage hs result
    cases result with
    | error e =>
      exact turn_of_fail hu hland ⟨o, ho, hopen⟩ hlanded hstage hopen (hrunning ▸ h)
    | ok out =>
      have hended := ne_running_of_isTerminal (Outcome.close_isTerminal o stage (.ok out) now)
      cases hsuccess : out.success with
      | true =>
        rw [complete_success hwake hstage hs hsuccess] at h
        cases hpub : (s.wakeAt now).run.outputs.publish ((s.wakeAt now).run.graph.name c.stage)
            (Marker.declared stage out.outputs) with
        | error e =>
          rw [hpub] at h
          cases h
        | ok store =>
          rw [hpub] at h
          cases h
          have hpublished : AllBut c.stage s (((s.wakeAt now).land c.stage).publish store) :=
            ⟨fun _ _ => rfl, rfl, rfl, rfl⟩
          exact .alone (hpublished.conclude hlanded _) (outcome?_put hlanded _) hended
            (.inr (byItself_of_close (.inl hsuccess) ..))
      | false =>
        cases hcancelled : out.cancelled with
        | true =>
          rw [complete_cancelled hwake hstage hs hsuccess hcancelled] at h
          cases h
          exact .alone (hland.conclude hlanded _) (outcome?_put hlanded _) hended
            (.inr (byItself_of_close (.inr hcancelled) ..))
        | false =>
          simp only [hsuccess, hcancelled, Bool.false_eq_true, if_false] at hrunning
          have hlog := outcome?_put hlanded (o.log out.stdout out.stderr out.exitCode)
          exact turn_of_fail hu (hland.put hlanded _) ⟨o, ho, hopen⟩ hlog hstage hopen
            (hrunning ▸ h)
  · have hidle : ∀ a stage, (s.wakeAt now).run.outcome? c.stage = some a →
        u.stage? c.stage = some stage → a.status ≠ .running := by
      intro a _ ha _ hrun
      rw [hwake] at ha
      cases ha
      exact hs hrun
    rw [complete_idle hidle] at h
    cases h
    exact .alone hland hlanded hs (.inl ho)

theorem turn_of_cancel (hu : u.Accepted) {now : Nat} (hc : s.run.cancelled = false)
    (h : cancel u (s.wakeAt now) = .ok s') : Turn u s s' := by
  have hwake : (s.wakeAt now).run.cancelled = false := hc
  have habort : abort u (s.wakeAt now).ask .cancelled false = .ok s' := by
    simp only [cancel, hwake] at h
    exact h
  obtain ⟨mid, rfl, hculled⟩ := abort_culled hu habort
  exact .cancel (b := (s.wakeAt now).ask) (fun _ => rfl) rfl rfl rfl hculled rfl

/-- What a turn does to one stage. -/
inductive Change (u : Setup) (s s' : State) (j : Nat) (stage : Stage) (o : Outcome) :
    Outcome → Prop where
  | none : Change u s s' j stage o o
  | alone {o' : Outcome} :
      AllBut j s s' → o'.status ≠ .running → ByItself u j o' → Change u s s' j stage o o'
  | launch {now : Nat} : o.status = .queued → Change u s s' j stage o (o.begin now)
  | fail {b : State} {o' : Outcome} :
      stage.allowFailure = false → AllBut j s b → b.run.outcome? j = some o' →
      o'.status = .failed → Aftermath u stage b s' → Change u s s' j stage o o'
  | fall {f : Nat} {cause : Stage} {a : Outcome} {now : Nat} :
      u.stage? f = some cause → s.run.outcome? f = some a → a.status.isTerminal = false →
      Falls u cause stage o.status → Change u s s' j stage o (o.skip (.failFast cause.name) now)
  | withdraw {now : Nat} :
      o.status.isTerminal = false → Change u s s' j stage o (o.skip .cancelled now)

theorem Turn.change (h : Turn u s s') (hstage : u.stage? j = some stage)
    (ho : s.run.outcome? j = some o) (ho' : s'.run.outcome? j = some o') :
    Change u s s' j stage o o' := by
  have hsame : s'.run.outcome? j = some o → Change u s s' j stage o o' := by
    intro hsame
    rw [ho'] at hsame
    cases hsame
    exact .none
  cases h with
  | rest heq => exact hsame (by rw [heq]; exact ho)
  | @alone i a hbut ha hs hown =>
    by_cases hji : j = i
    · subst hji
      rw [ho'] at ha
      cases ha
      rcases hown with hkept | hown
      · exact hsame (ho'.trans (hkept.symm.trans ho))
      · exact .alone hbut hs hown
    · exact hsame ((hbut.others j hji).trans ho)
  | @launch i _ a _ _ ha hs _ heq =>
    subst heq
    rw [State.run_launch, Run.outcome?_setOutcome ha] at ho' hsame
    by_cases hji : j = i
    · subst hji
      rw [if_pos rfl] at ho'
      rw [ho] at ha
      cases ha
      cases ho'
      exact .launch hs
    · rw [if_neg hji] at hsame
      exact hsame ho
  | @fail i cause _ a b hcause hallow hbefore hopen hbut ha hs hafter =>
    by_cases hji : j = i
    · subst hji
      rw [hstage] at hcause
      cases hcause
      have hkept := hafter.spared j stage a hstage ha fun hfall => by
        have hopen := hfall.open_
        rw [hs] at hopen
        cases hopen
      rw [ho'] at hkept
      cases hkept
      exact .fail hallow hbut ha hs hafter
    · rcases hafter.cases hstage ((hbut.others j hji).trans ho) with ⟨_, hkept⟩ | ⟨hfall, hskipped⟩
      · exact hsame hkept
      · rw [ho'] at hskipped
        cases hskipped
        exact .fall hcause hbefore hopen hfall
  | @cancel b mid hb _ _ _ hculled heq =>
    subst heq
    rcases hculled.cases hstage ((hb j).trans ho) with ⟨_, hkept⟩ | ⟨habort, hskipped⟩
    · exact hsame hkept
    · rw [State.run_fireSignals, hskipped] at ho'
      cases ho'
      exact .withdraw (isAborted_open habort)

theorem Step.turn (hu : u.Accepted) (hx : Reachable u env x) (h : Step u env x y) :
    Turn u x.state y.state := by
  cases h with
  | begin | gated | full | again | settled => exact .rest rfl
  | gate h => exact turn_of_gateOne hu hx.traffic h
  | dispatch _ h => exact turn_of_dispatchOne hu hx.traffic h
  | join hc _ _ h => exact turn_of_complete hu hx.traffic hc h
  | cancelEarly _ hc _ h | cancel _ hc _ _ h => exact turn_of_cancel hu hc h

end Scheduler
end Conveyor
