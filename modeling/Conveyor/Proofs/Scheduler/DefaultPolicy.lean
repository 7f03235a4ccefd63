import Conveyor.Proofs.Pipeline.Policies
import Conveyor.Proofs.Scheduler.FailFast

/-!
# Conveyor.Proofs.Scheduler.DefaultPolicy

One step of a run beside the same step of the run in which a stage has the default policy.

Two places read the policy of a stage. The gate does, of a stage that has dependencies, and the
passes of a failure do, which spare a stage that runs always while it waits. So if the stage has no
dependencies, every operation does the same in both runs, or goes wrong with the same error, unless
a failure in it takes the stage along in the one run and spares it in the other.

* `Setup.plain`, `State.plain`, `Point.plain` — the same with the default policy.
* `Exposed` — the failure of a cause would take the stage along if it did not run always.
* `Parted`  — the states that the two runs are in after such a failure.
* `Tied`    — the same state up to the policy, or parted ones.
* `Tally`   — two operations go wrong with the same error, or leave what is related.
* `Step.plain`, `Step.of_plain`       — the steps of the two runs against each other.
* `Returns.plain`, `Returns.of_plain` — what they return against each other.
-/

namespace Conveyor

/-! ## The same run with the default policy -/

def Run.plain (r : Run) (k : Nat) : Run := { r with pipeline := r.pipeline.plain k }

theorem Run.dependencies?_plain (r : Run) (k i : Nat) :
    (r.plain k).dependencies? i = r.dependencies? i := by
  have hall : ∀ l, (r.plain k).dependencyOutcomes? l = r.dependencyOutcomes? l := by
    intro l
    induction l with
    | nil => rfl
    | cons d rest ih =>
      rw [dependencyOutcomes?, dependencyOutcomes?, ih]
      rfl
  exact hall (r.graph.predecessorsOf i)

namespace Scheduler

variable {u : Setup} {env : Environment} {s t t' : State} {i k : Nat} {stage cause : Stage}
  {o : Outcome} {x y : Point}

def Setup.plain (u : Setup) (k : Nat) : Setup := { u with pipeline := u.pipeline.plain k }

def State.plain (s : State) (k : Nat) : State := { s with run := s.run.plain k }

def Point.plain (x : Point) (k : Nat) : Point := ⟨x.place, x.state.plain k⟩

theorem Setup.stage?_plain (u : Setup) (k i : Nat) :
    (u.plain k).stage? i = (u.stage? i).map (·.plainAt k i) := by
  rw [stage?, plain, Pipeline.plain, List.getElem?_modify]
  by_cases hi : k = i
  · simp [hi, Stage.plainAt, stage?]
  · simp [hi, Ne.symm hi, Stage.plainAt, stage?]

theorem Setup.stage?_plain_some (hstage : u.stage? i = some stage) (k : Nat) :
    (u.plain k).stage? i = some (stage.plainAt k i) := by
  rw [stage?_plain, hstage, Option.map_some]

theorem Setup.stage?_plain_self (hstage : u.stage? k = some stage) :
    (u.plain k).stage? k = some stage.plain := by
  rw [stage?_plain_some hstage, Stage.plainAt_self]

theorem Setup.stage?_plain_of_ne (hi : i ≠ k) : (u.plain k).stage? i = u.stage? i := by
  rw [stage?_plain]
  simp [Stage.plainAt, hi]

theorem Setup.Accepted.plain (hu : u.Accepted) (k : Nat) : (u.plain k).Accepted :=
  ⟨u.pipeline.ensureValid_plain hu.valid k⟩

theorem State.plain_start (u : Setup) (k : Nat) :
    (State.start u).plain k = State.start (u.plain k) := by
  have houtcomes : (u.plain k).pipeline.stages.map (fun s =>
      ({ name := s.name, optional := s.allowFailure } : Outcome)) =
      u.pipeline.stages.map fun s => { name := s.name, optional := s.allowFailure } :=
    Stage.map_modify_plain (fun _ => rfl) u.pipeline.stages k
  rw [State.start, State.start, Run.start, Run.start, houtcomes]
  rfl

/-! ## Passes -/

/-- A pass does the same to the stages whatever the policy, if its test says the same of the one
stage. -/
theorem skipWhere_plain {test : Stage → Status → Bool} (reason : SkipReason)
    (htest : ∀ stage status, test stage status = true → status.isTerminal = false) :
    ∀ (l : List Nat) (s : State),
      (∀ stage o, u.stage? k = some stage → s.run.outcome? k = some o →
        test stage.plain o.status = test stage o.status) →
      skipWhere (u.plain k) test reason l (s.plain k) =
        (skipWhere u test reason l s).map (·.plain k) := by
  intro l
  induction l with
  | nil => exact fun s _ => rfl
  | cons i rest ih =>
    intro s hagree
    cases hstage : u.stage? i with
    | none =>
      simp only [skipWhere, Setup.stage?_plain, hstage, Option.map_none]
      exact ih s hagree
    | some stage =>
      cases ho : s.run.outcome? i with
      | none =>
        have hstatus : s.run.status? i = none := by rw [Run.status?, ho]; rfl
        have hstatus' : (s.plain k).run.status? i = none := hstatus
        simp only [skipWhere, Setup.stage?_plain, hstage, Option.map_some, hstatus, hstatus']
        exact ih s hagree
      | some o =>
        have hstatus : s.run.status? i = some o.status := by rw [Run.status?, ho]; rfl
        have hstatus' : (s.plain k).run.status? i = some o.status := hstatus
        have hsame : test (stage.plainAt k i) o.status = test stage o.status := by
          refine Stage.plainAt_congr (f := (test · o.status)) fun hi => ?_
          subst hi
          exact hagree stage o hstage ho
        simp only [skipWhere, Setup.stage?_plain, hstage, Option.map_some, hstatus, hstatus', hsame]
        cases ht : test stage o.status with
        | false => exact ih s hagree
        | true =>
          have hopen := htest _ _ ht
          have ho' : (s.plain k).run.outcome? i = some o := ho
          simp only [if_true, skip_ok ho hopen, skip_ok ho' hopen]
          refine ih (s.conclude i (o.skip reason s.run.clock)) fun stage' a hstage' ha => ?_
          rw [State.run_conclude, Run.outcome?_setOutcome ho] at ha
          split at ha
          · cases ha
            rw [test_of_isTerminal htest rfl, test_of_isTerminal htest rfl]
          · exact hagree stage' a hstage' ha

/-- The tests of the two passes say the same of a stage with the default policy, unless it runs
always and waits. -/
theorem fallsWith_plain {group : String} {status : Status}
    (h : stage.onFailure = .always → status.waits = true → stage.failFastGroup ≠ some group) :
    fallsWith group stage.plain status = fallsWith group stage status := by
  have hplain : fallsWith group stage.plain status =
      ((status = .pending || status = .queued) && stage.failFastGroup = some group) :=
    Bool.and_true _
  rw [hplain, fallsWith]
  by_cases halways : stage.onFailure = .always
  · cases status with
    | pending | queued => simp [h halways rfl]
    | running | succeeded | failed | skipped => rfl
  · simp [halways]

theorem isAborted_plain {spare : Bool} {status : Status}
    (h : spare = true → stage.onFailure = .always → status.waits = false) :
    isAborted spare stage.plain status = isAborted spare stage status := by
  have hplain : isAborted spare stage.plain status = !status.isTerminal := by
    simp [isAborted, Stage.plain]
  rw [hplain, isAborted]
  cases spare with
  | false => simp
  | true =>
    by_cases halways : stage.onFailure = .always
    · have hwaits := h rfl halways
      cases status with
      | pending | queued => cases hwaits
      | running | succeeded | failed | skipped => rfl
    · simp [halways]

theorem abort_plain {spare : Bool} (reason : SkipReason)
    (hagree : ∀ stage o, u.stage? k = some stage → s.run.outcome? k = some o →
      spare = true → stage.onFailure = .always → o.status.waits = false) :
    abort (u.plain k) (s.plain k) reason spare = (abort u s reason spare).map (·.plain k) := by
  have hskip : skipWhere (u.plain k) (isAborted spare) reason u.order (s.plain k) =
      (skipWhere u (isAborted spare) reason u.order s).map (·.plain k) :=
    skipWhere_plain reason (fun _ _ => isAborted_open) u.order s
      fun stage o hstage ho => isAborted_plain (hagree stage o hstage ho)
  have horder : (u.plain k).order = u.order := rfl
  rw [abort, abort, horder, hskip]
  cases skipWhere u (isAborted spare) reason u.order s <;> rfl

/-! ## Failures -/

/-- The stage runs always and waits, and a failure of the cause would take it along if it did not
run always. -/
structure Exposed (u : Setup) (k : Nat) (s : State) (cause : Stage) : Prop where
  always : ∃ stage, u.stage? k = some stage ∧ stage.onFailure = .always
  waits : ∃ o, s.run.outcome? k = some o ∧ o.status.waits = true
  reached : Grouped u k cause ∨ u.pipeline.settings.failFast = true

theorem failGroup_plain (h : ¬ Exposed u k s cause) :
    failGroup (u.plain k) (s.plain k) cause = (failGroup u s cause).map (·.plain k) := by
  unfold failGroup
  cases hgroup : cause.failFastGroup with
  | none => rfl
  | some group =>
    refine skipWhere_plain _ (fun _ _ => fallsWith_open) u.order s fun stage o hstage ho => ?_
    refine fallsWith_plain fun halways hwaits hown => ?_
    refine h ⟨⟨stage, hstage, halways⟩, ⟨o, ho, hwaits⟩, ?_⟩
    exact .inl ⟨stage, group, hstage, hown, hgroup⟩

theorem outcome?_of_failGroup (h : failGroup u s cause = .ok t) (ho : t.run.outcome? i = some o)
    (hs : o.status.waits = true) : s.run.outcome? i = some o := by
  unfold failGroup at h
  split at h
  · cases h
    exact ho
  · rename_i group _
    obtain ⟨_, hskip, hskips, _⟩ := skipWhere_ok u (.failFast cause.name)
      (fun _ _ => @fallsWith_open group _ _) u.order s
    rw [h] at hskip
    cases hskip
    refine (outcome?_of_skips hskips ho).resolve_right fun hended => ?_
    cases hended.symm.trans (Status.open_of_waits hs)

theorem failFast_plain (h : ¬ Exposed u k s cause) :
    failFast (u.plain k) (s.plain k) cause = (failFast u s cause).map (·.plain k) := by
  have hsettings : (u.plain k).pipeline.settings = u.pipeline.settings := rfl
  rw [failFast_eq, failFast_eq, failGroup_plain h, hsettings]
  cases hmid : failGroup u s cause with
  | error e => rfl
  | ok mid =>
    cases hff : u.pipeline.settings.failFast with
    | false => rfl
    | true =>
      refine abort_plain _ fun stage o hstage ho _ halways => ?_
      refine Bool.eq_false_iff.2 fun hwaits => ?_
      refine h ⟨⟨stage, hstage, halways⟩, ⟨o, ?_, hwaits⟩, .inr hff⟩
      exact outcome?_of_failGroup hmid ho hwaits

/-! ## Where two runs part -/

/-- The cause has failed while the stage waited. It still waits where it runs always, and has fallen
with the cause where it has the default policy. The other stages are alike. -/
structure Parted (u : Setup) (k : Nat) (cause : Stage) (t t' : State) : Prop where
  exposed : Exposed u k t cause
  failed : HasFailed u t cause
  fallen : ∀ o, t.run.outcome? k = some o →
    t'.run.outcome? k = some (o.skip (.failFast cause.name) t.run.clock)
  others : ∀ j stage, j ≠ k → u.stage? j = some stage → t'.run.outcome? j = t.run.outcome? j

/-- Every stage has an outcome. -/
def Listed (u : Setup) (s : State) : Prop :=
  ∀ j stage, u.stage? j = some stage → ∃ o, s.run.outcome? j = some o

theorem Listed.put (h : Listed u s) (ho : s.run.outcome? i = some o) (o' : Outcome) :
    Listed u (s.put i o') := by
  intro j stage hstage
  rw [State.run_put, Run.outcome?_setOutcome ho]
  split
  · exact ⟨o', rfl⟩
  · exact h j stage hstage

theorem Exposed.falls (h : Exposed u k s cause) (hstage : u.stage? k = some stage)
    (hs : o.status.waits = true) : Falls (u.plain k) cause stage.plain o.status := by
  have hplain := Setup.stage?_plain_self hstage
  rcases h.reached with ⟨own, group, hown, hgroup, hcause⟩ | hff
  · cases hstage.symm.trans hown
    exact .of_grouped hplain ⟨_, group, hplain, hgroup, hcause⟩ (by simp [Stage.plain]) hs
  · exact .inr ⟨hff, by simp [isAborted, Status.open_of_waits hs, Stage.plain]⟩

theorem parted_of_aftermath (hlisted : Listed u s) (hx : Exposed u k s cause)
    (hfailed : HasFailed u t cause) (h : Aftermath u cause s t)
    (h' : Aftermath (u.plain k) cause (s.plain k) t') : Parted u k cause t t' := by
  obtain ⟨stage, hstage, halways⟩ := hx.always
  obtain ⟨o, ho, hs⟩ := hx.waits
  have hkept : t.run.outcome? k = some o :=
    h.spared k stage o hstage ho fun hfall => hfall.ne_always hs halways
  have hfell := h'.taken k stage.plain o (Setup.stage?_plain_self hstage) ho (hx.falls hstage hs)
  refine ⟨⟨hx.always, ⟨o, hkept, hs⟩, hx.reached⟩, hfailed, ?_, ?_⟩
  · intro a ha
    cases hkept.symm.trans ha
    rw [h.clock]
    exact hfell
  · intro j other hj hother
    obtain ⟨a, ha⟩ := hlisted j other hother
    have hother' : (u.plain k).stage? j = some other := (Setup.stage?_plain_of_ne hj).trans hother
    rcases h.cases hother ha with ⟨hmiss, hsame⟩ | ⟨hfall, hskipped⟩
    · rw [hsame]
      exact h'.spared j other a hother' ha hmiss
    · rw [hskipped]
      exact h'.taken j other a hother' ha hfall

/-- What an operation leaves is the same up to the policy, or the runs part there. -/
def Tied (u : Setup) (k : Nat) (t t' : State) : Prop :=
  t' = t.plain k ∨ ∃ cause, Parted u k cause t t'

/-- Two operations go wrong with the same error, or leave what is related. -/
inductive Tally {α : Type} (R : α → α → Prop) : Except Error α → Except Error α → Prop where
  | error {e : Error} : Tally R (.error e) (.error e)
  | ok {a b : α} : R a b → Tally R (.ok a) (.ok b)

theorem Tally.map {α β : Type} {R : α → α → Prop} {S : β → β → Prop} {f g : α → β}
    {r r' : Except Error α} (h : Tally R r r') (hfg : ∀ a b, R a b → S (f a) (g b)) :
    Tally S (r.map f) (r'.map g) := by
  cases h with
  | error => exact .error
  | ok hab => exact .ok (hfg _ _ hab)

theorem tally_map_plain (r : Except Error State) : Tally (Tied u k) r (r.map (·.plain k)) := by
  cases r with
  | error e => exact .error
  | ok t => exact .ok (.inl rfl)

/-! ## Operations -/

theorem tally_failFast (hu : u.Accepted) (hlisted : Listed u s) (hcause : HasFailed u s cause) :
    Tally (Tied u k) (failFast u s cause) (failFast (u.plain k) (s.plain k) cause) := by
  by_cases hx : Exposed u k s cause
  · let env : Environment := ⟨fun _ _ => True, True⟩
    obtain ⟨t, ht, hmoves, _⟩ := failFast_ok env hcause
    have hcause' : HasFailed (u.plain k) (s.plain k) cause := by
      obtain ⟨j, o, hj, ho, hs, hallow⟩ := hcause
      obtain ⟨a, ha, hwaits⟩ := hx.waits
      have hne : j ≠ k := by
        rintro rfl
        cases ho.symm.trans ha
        rw [hs] at hwaits
        cases hwaits
      exact ⟨j, o, (Setup.stage?_plain_of_ne hne).trans hj, ho, hs, hallow⟩
    obtain ⟨t', ht', _⟩ := failFast_ok env hcause'
    have hparted := parted_of_aftermath hlisted hx (hmoves.hasFailed hcause)
      (aftermath_of_failFast hu ht) (aftermath_of_failFast (hu.plain k) ht')
    rw [ht, ht']
    exact .ok (.inr ⟨cause, hparted⟩)
  · rw [failFast_plain hx]
    exact tally_map_plain _

theorem fail_eq (ho : s.run.outcome? i = some o) (hs : o.status.isTerminal = false)
    (hstage : u.stage? i = some stage) {e : Error} (he : e.isFatal = false) :
    fail u s i e = if stage.allowFailure then .ok (s.conclude i (o.fail e s.run.clock))
      else failFast u (s.conclude i (o.fail e s.run.clock)) stage := by
  have hrec : { s with run := s.run.setOutcome i (o.fail e s.run.clock) }.notifyFinished i =
      s.conclude i (o.fail e s.run.clock) := notifyFinished_put ho _
  simp only [fail, he, hstage, Run.accepted_markFailed ho hs, hrec]
  rfl

theorem tally_fail (hu : u.Accepted) (hlisted : Listed u s) (ho : s.run.outcome? i = some o)
    (hs : o.status.isTerminal = false) (e : Error) :
    Tally (Tied u k) (fail u s i e) (fail (u.plain k) (s.plain k) i e) := by
  cases he : e.isFatal with
  | true =>
    simp only [fail, he, if_true]
    exact .error
  | false =>
    cases hstage : u.stage? i with
    | none =>
      simp only [fail, he, Setup.stage?_plain, hstage, Option.map_none]
      exact .error
    | some cause =>
      let b := s.conclude i (o.fail e s.run.clock)
      have hfail : fail u s i e = if cause.allowFailure then .ok b else failFast u b cause :=
        fail_eq ho hs hstage he
      -- what a failure does is read off the name and the group of the stage, not off its policy
      have hfail' : fail (u.plain k) (s.plain k) i e =
          if cause.allowFailure then .ok (b.plain k)
          else failFast (u.plain k) (b.plain k) cause := by
        have ho' : (s.plain k).run.outcome? i = some o := ho
        by_cases hi : i = k
        · subst hi
          exact fail_eq ho' hs (Setup.stage?_plain_self hstage) he
        · exact fail_eq ho' hs ((Setup.stage?_plain_of_ne hi).trans hstage) he
      rw [hfail, hfail']
      cases hallow : cause.allowFailure with
      | true => exact .ok (.inl rfl)
      | false =>
        have hcause : HasFailed u b cause :=
          ⟨i, _, hstage, outcome?_put ho _, Outcome.status_fail o e s.run.clock, hallow⟩
        exact tally_failFast hu (hlisted.put ho _) hcause

theorem decide_plain (trigger : Trigger) (stage : Stage) :
    Gate.decide trigger stage.plain [] = Gate.decide trigger stage [] := by
  have hfree : ∀ s : Stage, Gate.stoppedBy? s [] = none := by
    intro s
    rw [Gate.stoppedBy?]
    split <;> rfl
  rw [Gate.decide, Gate.decide, hfree, hfree]
  rfl

/-- What an operation leaves, with what it answers, or the runs part there. -/
def TiedPair (u : Setup) (k : Nat) (p q : State × Bool) : Prop := Tied u k p.1 q.1 ∧ q.2 = p.2

theorem tally_gateOne (hu : u.Accepted) (hlisted : Listed u s)
    (hroot : s.run.graph.predecessorsOf k = []) (i : Nat) :
    Tally (TiedPair u k) (gateOne u s i) (gateOne (u.plain k) (s.plain k) i) := by
  by_cases hg : Gatable u s i
  · obtain ⟨o, ho, hs⟩ := outcome?_of_status? hg.waits
    obtain ⟨deps, hdeps⟩ := Option.isSome_iff_exists.1 hg.known
    obtain ⟨stage, hstage⟩ := Option.isSome_iff_exists.1 hg.stage
    have hopen : o.status.isTerminal = false := by rw [hs]; rfl
    have ho' : (s.plain k).run.outcome? i = some o := ho
    have hwaits' : (s.plain k).run.status? i = some .pending := hg.waits
    have hdeps' : (s.plain k).run.dependencies? i = some deps :=
      (s.run.dependencies?_plain k i).trans hdeps
    have htrigger : (u.plain k).trigger = u.trigger := rfl
    -- the gate of the stage itself is asked without dependencies
    have hgate : Gate.decide u.trigger (stage.plainAt k i) deps =
        Gate.decide u.trigger stage deps := by
      refine Stage.plainAt_congr (f := (Gate.decide u.trigger · deps)) fun hi => ?_
      subst hi
      rw [Run.dependencies?, hroot] at hdeps
      cases hdeps
      exact decide_plain u.trigger stage
    simp only [gateOne, hg.waits, hdeps, hstage, hwaits', hdeps', Setup.stage?_plain,
      Option.map_some, htrigger, hgate]
    cases Gate.decide u.trigger stage deps with
    | error e => exact (tally_fail hu hlisted ho hopen e).map fun _ _ htied => ⟨htied, rfl⟩
    | ok decision =>
      cases decision with
      | allow =>
        simp only [Run.accepted_markQueued ho hs, Run.accepted_markQueued ho' hs]
        exact .ok ⟨.inl rfl, rfl⟩
      | skip reason =>
        simp only [skip_ok ho hopen, skip_ok ho' hopen]
        exact .ok ⟨.inl rfl, rfl⟩
  · have hg' : ¬ Gatable (u.plain k) (s.plain k) i := by
      rintro ⟨hwaits, hknown, hstage⟩
      rw [Setup.stage?_plain, Option.isSome_map] at hstage
      exact hg ⟨hwaits, s.run.dependencies?_plain k i ▸ hknown, hstage⟩
    rw [gateOne_idle hg, gateOne_idle hg']
    exact .ok ⟨.inl rfl, rfl⟩

theorem prepare_plain (u : Setup) (s : State) (stage : Stage) (i k : Nat) :
    prepare (u.plain k) (s.plain k) (stage.plainAt k i) = prepare u s stage :=
  Stage.plainAt_congr (f := prepare u s) fun _ => rfl

theorem lock?_plain (locks : Locks) (stage : Stage) (i k : Nat) :
    lock? locks i (stage.plainAt k i) = lock? locks i stage :=
  Stage.plainAt_congr (f := lock? locks i) fun _ => rfl

theorem tally_dispatchOne (hu : u.Accepted) (hlisted : Listed u s) (i : Nat) :
    Tally (TiedPair u k) (dispatchOne u s i) (dispatchOne (u.plain k) (s.plain k) i) := by
  by_cases hd : Startable u s i
  · obtain ⟨o, ho, hs⟩ := outcome?_of_status? hd.queued
    obtain ⟨stage, hstage, hfree⟩ := hd.free
    obtain ⟨locks, hlock⟩ := Option.isSome_iff_exists.1 hfree
    have hopen : o.status.isTerminal = false := by rw [hs]; rfl
    have ho' : (s.plain k).run.outcome? i = some o := ho
    have hqueued' : (s.plain k).run.status? i = some .queued := hd.queued
    have hlocks : (s.plain k).locks = s.locks := rfl
    simp only [dispatchOne, hd.queued, hqueued', hstage, Setup.stage?_plain, Option.map_some,
      hlocks, lock?_plain, hlock, prepare_plain]
    cases prepare u s stage with
    | ok request =>
      simp only [spawn_ok ho hs, spawn_ok ho' hs]
      exact .ok ⟨.inl rfl, rfl⟩
    | error e =>
      let freed : State := { s with locks := locks.release i }
      have hfreed : freed.run.outcome? i = some o := ho
      have hlisted' : Listed u freed := hlisted
      have htally : Tally (Tied u k) (fail u freed i e) (fail (u.plain k) (freed.plain k) i e) :=
        tally_fail hu hlisted' hfreed hopen e
      exact htally.map fun _ _ htied => ⟨htied, rfl⟩
  · have hd' : ¬ Startable (u.plain k) (s.plain k) i := by
      rintro ⟨hqueued, stage', hstage', hfree⟩
      rw [Setup.stage?_plain] at hstage'
      obtain ⟨stage, hstage, rfl⟩ := Option.map_eq_some_iff.1 hstage'
      rw [lock?_plain] at hfree
      exact hd ⟨hqueued, stage, hstage, hfree⟩
    rw [dispatchOne_idle hd, dispatchOne_idle hd']
    exact .ok ⟨.inl rfl, rfl⟩

/-- How a command ends its stage is read off its name and its outputs. -/
theorem tally_complete_running (hu : u.Accepted) (hlisted : Listed u s)
    (ho : s.run.outcome? i = some o) (hstage : u.stage? i = some stage) (hs : o.status = .running)
    (result : Except Error CommandOutput) :
    Tally (Tied u k) (complete u s i result) (complete (u.plain k) (s.plain k) i result) := by
  have hopen : o.status.isTerminal = false := by rw [hs]; rfl
  have ho' : (s.plain k).run.outcome? i = some o := ho
  have hstage' := Setup.stage?_plain_some hstage k
  have hland : (s.land i).run.outcome? i = some o := ho
  cases result with
  | error e =>
    have hlisted' : Listed u (s.land i) := hlisted
    rw [complete_running ho hstage hs, complete_running ho' hstage' hs]
    exact tally_fail hu hlisted' hland hopen e
  | ok out =>
    have hclock : (s.plain k).run.clock = s.run.clock := rfl
    have hclose : o.close (stage.plainAt k i) (.ok out) s.run.clock =
        o.close stage (.ok out) s.run.clock :=
      Stage.plainAt_congr (f := (o.close · (.ok out) s.run.clock)) fun _ => rfl
    cases hsuccess : out.success with
    | true =>
      have hdeclared : Marker.declared (stage.plainAt k i) out.outputs =
          Marker.declared stage out.outputs :=
        Stage.plainAt_congr (f := (Marker.declared · out.outputs)) fun _ => rfl
      have hstore : (s.plain k).run.outputs.publish ((s.plain k).run.graph.name i) =
          s.run.outputs.publish (s.run.graph.name i) := rfl
      rw [complete_success ho hstage hs hsuccess, complete_success ho' hstage' hs hsuccess,
        hdeclared, hstore, hclock, hclose]
      cases s.run.outputs.publish (s.run.graph.name i) (Marker.declared stage out.outputs) with
      | error e => exact .error
      | ok store => exact .ok (.inl rfl)
    | false =>
      cases hcancelled : out.cancelled with
      | true =>
        rw [complete_cancelled ho hstage hs hsuccess hcancelled,
          complete_cancelled ho' hstage' hs hsuccess hcancelled, hclock, hclose]
        exact .ok (.inl rfl)
      | false =>
        let b := (s.land i).put i (o.log out.stdout out.stderr out.exitCode)
        have hlog : b.run.outcome? i = some (o.log out.stdout out.stderr out.exitCode) :=
          outcome?_put hland _
        have hlisted' : Listed u b := hlisted.put ho _
        have hname : (stage.plainAt k i).name = stage.name :=
          Stage.plainAt_congr fun _ => rfl
        rw [complete_running ho hstage hs, complete_running ho' hstage' hs]
        simp only [hsuccess, hcancelled, hname, Bool.false_eq_true, if_false]
        exact tally_fail hu hlisted' hlog hopen _

theorem tally_complete (hu : u.Accepted) (hlisted : Listed u s) (i : Nat)
    (result : Except Error CommandOutput) :
    Tally (Tied u k) (complete u s i result) (complete (u.plain k) (s.plain k) i result) := by
  by_cases hrun : ∃ o stage, s.run.outcome? i = some o ∧ u.stage? i = some stage ∧
      o.status = .running
  · obtain ⟨o, stage, ho, hstage, hs⟩ := hrun
    exact tally_complete_running hu hlisted ho hstage hs result
  · have hidle : ∀ o stage, s.run.outcome? i = some o → u.stage? i = some stage →
        o.status ≠ .running := fun o stage ho hstage hs => hrun ⟨o, stage, ho, hstage, hs⟩
    have hidle' : ∀ o stage, (s.plain k).run.outcome? i = some o →
        (u.plain k).stage? i = some stage → o.status ≠ .running := by
      intro o stage' ho hstage'
      rw [Setup.stage?_plain] at hstage'
      obtain ⟨stage, hstage, _⟩ := Option.map_eq_some_iff.1 hstage'
      exact hidle o stage ho hstage
    rw [complete_idle hidle, complete_idle hidle']
    exact .ok (.inl rfl)

/-- A cancel spares no stage, so it does not look at policies. -/
theorem tally_cancel (u : Setup) (s : State) :
    Tally (Tied u k) (cancel u s) (cancel (u.plain k) (s.plain k)) := by
  have hcancelled : (s.plain k).run.cancelled = s.run.cancelled := rfl
  simp only [cancel, hcancelled]
  split
  · exact .ok (.inl rfl)
  · have habort : abort (u.plain k) (s.ask.plain k) .cancelled false =
        (abort u s.ask .cancelled false).map (·.plain k) :=
      abort_plain _ fun _ _ _ _ hspare => absurd hspare Bool.noConfusion
    have htally : Tally (Tied u k) (abort u s.ask .cancelled false)
        (abort (u.plain k) (s.ask.plain k) .cancelled false) := by
      rw [habort]
      exact tally_map_plain _
    exact htally

/-! ## Steps -/

namespace Tally

variable {α : Type} {R : α → α → Prop} {r r' : Except Error α}

theorem ok_left (h : Tally R r r') {a : α} (hr : r = .ok a) : ∃ b, r' = .ok b ∧ R a b := by
  cases h with
  | error => cases hr
  | ok hab =>
    cases hr
    exact ⟨_, rfl, hab⟩

theorem ok_right (h : Tally R r r') {b : α} (hr : r' = .ok b) : ∃ a, r = .ok a ∧ R a b := by
  cases h with
  | error => cases hr
  | ok hab =>
    cases hr
    exact ⟨_, rfl, hab⟩

theorem error_iff (h : Tally R r r') {e : Error} : r = .error e ↔ r' = .error e := by
  cases h with
  | error => exact Iff.rfl
  | ok =>
    constructor <;> intro hr <;> cases hr

end Tally

/-- The driver is at the same place, with what is the same up to the policy, or the runs part. -/
structure TiedPoint (u : Setup) (k : Nat) (y y' : Point) : Prop where
  place : y'.place = y.place
  state : Tied u k y.state y'.state

theorem TiedPoint.same (u : Setup) (k : Nat) (place : Place) (s : State) :
    TiedPoint u k ⟨place, s⟩ ⟨place, s.plain k⟩ := ⟨rfl, .inl rfl⟩

theorem verdict?_plain (s : State) (k : Nat) :
    verdict? (s.plain k) = (verdict? s).map (Except.map (·.plain k)) := by
  have hidle : (s.plain k).inFlight = s.inFlight := rfl
  have hcomplete : (s.plain k).run.isComplete = s.run.isComplete := rfl
  rw [verdict?, verdict?, hidle, hcomplete]
  split
  · split <;> rfl
  · rfl

section
variable (hu : u.Accepted) (hlisted : Listed u x.state)
  (hroot : x.state.run.graph.predecessorsOf k = [])
include hu hlisted hroot

/-- Every step is also one with the default policy. -/
theorem Step.plain (h : Step u env x y) :
    ∃ y', Step (u.plain k) env (x.plain k) y' ∧ TiedPoint u k y y' := by
  cases h with
  | begin => exact ⟨_, .begin, .same ..⟩
  | gated => exact ⟨_, .gated, .same ..⟩
  | full hfull => exact ⟨_, .full hfull, .same ..⟩
  | again => exact ⟨_, .again, .same ..⟩
  | settled => exact ⟨_, .settled, .same ..⟩
  | gate h =>
    obtain ⟨⟨t, b⟩, ht, htied, rfl⟩ := (tally_gateOne hu hlisted hroot _).ok_left h
    exact ⟨_, .gate ht, rfl, htied⟩
  | dispatch hroom h =>
    obtain ⟨⟨t, b⟩, ht, htied, rfl⟩ := (tally_dispatchOne hu hlisted _).ok_left h
    exact ⟨_, .dispatch hroom ht, rfl, htied⟩
  | @join c result now s _ hc hans hnow h =>
    have hlisted' : Listed u (s.wakeAt now) := hlisted
    obtain ⟨t, ht, htied⟩ := (tally_complete hu hlisted' c.stage result).ok_left h
    exact ⟨_, .join hc hans hnow ht, rfl, htied⟩
  | cancelEarly henv hc hnow h =>
    obtain ⟨t, ht, htied⟩ := (tally_cancel u _).ok_left h
    exact ⟨_, .cancelEarly henv hc hnow ht, rfl, htied⟩
  | cancel henv hc hbusy hnow h =>
    obtain ⟨t, ht, htied⟩ := (tally_cancel u _).ok_left h
    exact ⟨_, .cancel henv hc hbusy hnow ht, rfl, htied⟩

theorem Step.of_plain {y' : Point} (h : Step (u.plain k) env (x.plain k) y') :
    ∃ y, Step u env x y ∧ TiedPoint u k y y' := by
  obtain ⟨place, s⟩ := x
  generalize hx : Point.plain ⟨place, s⟩ k = x' at h
  cases h with
  | begin =>
    cases hx
    exact ⟨_, .begin, .same ..⟩
  | gated =>
    cases hx
    exact ⟨_, .gated, .same ..⟩
  | full hfull =>
    cases hx
    exact ⟨_, .full hfull, .same ..⟩
  | again =>
    cases hx
    exact ⟨_, .again, .same ..⟩
  | settled =>
    cases hx
    exact ⟨_, .settled, .same ..⟩
  | gate h =>
    cases hx
    obtain ⟨⟨t, b⟩, ht, htied, rfl⟩ := (tally_gateOne hu hlisted hroot _).ok_right h
    exact ⟨_, .gate ht, rfl, htied⟩
  | dispatch hroom h =>
    cases hx
    obtain ⟨⟨t, b⟩, ht, htied, rfl⟩ := (tally_dispatchOne hu hlisted _).ok_right h
    exact ⟨_, .dispatch hroom ht, rfl, htied⟩
  | @join c result now _ _ hc hans hnow h =>
    cases hx
    have hlisted' : Listed u (s.wakeAt now) := hlisted
    obtain ⟨t, ht, htied⟩ := (tally_complete hu hlisted' c.stage result).ok_right h
    exact ⟨_, .join hc hans hnow ht, rfl, htied⟩
  | @cancelEarly now _ _ henv hc hnow h =>
    cases hx
    obtain ⟨t, ht, htied⟩ := (tally_cancel u (s.wakeAt now)).ok_right h
    exact ⟨_, .cancelEarly henv hc hnow ht, rfl, htied⟩
  | @cancel now _ _ henv hc hbusy hnow h =>
    cases hx
    obtain ⟨t, ht, htied⟩ := (tally_cancel u (s.wakeAt now)).ok_right h
    exact ⟨_, .cancel henv hc hbusy hnow ht, rfl, htied⟩

theorem Returns.plain {result : Except Error Run} (h : Returns u env x result) :
    Returns (u.plain k) env (x.plain k) (result.map (·.plain k)) := by
  cases h with
  | gate h => exact .gate ((tally_gateOne hu hlisted hroot _).error_iff.1 h)
  | dispatch hroom h => exact .dispatch hroom ((tally_dispatchOne hu hlisted _).error_iff.1 h)
  | @join c result now s _ hc hans hnow h =>
    have hlisted' : Listed u (s.wakeAt now) := hlisted
    exact .join hc hans hnow ((tally_complete hu hlisted' c.stage result).error_iff.1 h)
  | cancelEarly henv hc hnow h =>
    exact .cancelEarly henv hc hnow ((tally_cancel u _).error_iff.1 h)
  | cancel henv hc hbusy hnow h =>
    exact .cancel henv hc hbusy hnow ((tally_cancel u _).error_iff.1 h)
  | @verdict s result h =>
    refine .verdict ?_
    rw [verdict?_plain, h]
    rfl

theorem Returns.of_plain {result' : Except Error Run}
    (h : Returns (u.plain k) env (x.plain k) result') :
    ∃ result, Returns u env x result ∧ result' = result.map (·.plain k) := by
  obtain ⟨place, s⟩ := x
  generalize hx : Point.plain ⟨place, s⟩ k = x' at h
  cases h with
  | gate h =>
    cases hx
    exact ⟨_, .gate ((tally_gateOne hu hlisted hroot _).error_iff.2 h), rfl⟩
  | dispatch hroom h =>
    cases hx
    exact ⟨_, .dispatch hroom ((tally_dispatchOne hu hlisted _).error_iff.2 h), rfl⟩
  | @join c result now _ _ hc hans hnow h =>
    cases hx
    have hlisted' : Listed u (s.wakeAt now) := hlisted
    exact ⟨_, .join hc hans hnow ((tally_complete hu hlisted' c.stage result).error_iff.2 h), rfl⟩
  | @cancelEarly now _ _ henv hc hnow h =>
    cases hx
    exact ⟨_, .cancelEarly henv hc hnow ((tally_cancel u (s.wakeAt now)).error_iff.2 h), rfl⟩
  | @cancel now _ _ henv hc hbusy hnow h =>
    cases hx
    exact ⟨_, .cancel henv hc hbusy hnow ((tally_cancel u (s.wakeAt now)).error_iff.2 h), rfl⟩
  | verdict h =>
    cases hx
    rw [verdict?_plain] at h
    obtain ⟨result, hresult, rfl⟩ := Option.map_eq_some_iff.1 h
    exact ⟨result, .verdict hresult, rfl⟩

end

end Scheduler
end Conveyor
