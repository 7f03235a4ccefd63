import Conveyor.Proofs.Output.Resolution
import Conveyor.Proofs.Run.Marks
import Conveyor.Proofs.Scheduler.Driver

/-!
# Conveyor.Proofs.Scheduler.Move

What can happen to a state, in its smallest parts.

Every operation of the scheduler is a sequence of moves. A move takes one stage one step
further in its life, or lets a command land whose stage has ended before, or changes nothing
that is recorded about stages. Its guards say all that is known at that moment, so an invariant
is shown by one look at every move.

* `Ends` — a stage ends that has no result: its gate refuses it or fails, or a fail-fast or a
           cancel takes it along.
* `Life` — a stage takes a step.
* `Move`, `Moves` — what can happen to a state, once and any number of times.
* `Move.life`     — a move changes the outcome of one stage at most, and that by a step of its
                    life.
* `Moves.kept`    — an outcome that is final stays as it is.
-/

namespace Conveyor

/-! ## Results of commands -/

/-- The outcome of a running stage when the result of its command is applied. -/
def Outcome.close (o : Outcome) (stage : Stage) (result : Except Error CommandOutput)
    (now : Nat) : Outcome :=
  match result with
  | .error e => o.fail e now
  | .ok out =>
    let o := o.log out.stdout out.stderr out.exitCode
    if out.success then o.succeed (Marker.declared stage out.outputs) now
    else if out.cancelled then o.skip .cancelled now
    else
      o.fail (.commandFailure stage.name (out.exitCode.getD (-1)) (Text.tail 20 out.stderr)) now

/-- The values that a result publishes. -/
def Stage.published? (stage : Stage) : Except Error CommandOutput → Option (Dict String)
  | .error _ => none
  | .ok out => if out.success then some (Marker.declared stage out.outputs) else none

namespace Scheduler

theorem InFlight.stage_hear (c : InFlight) (channel now : Nat) :
    (c.hear channel now).stage = c.stage := by
  rw [hear]
  split <;> rfl

namespace State

/-! ## Changes of a state -/

def put (s : State) (i : Nat) (o : Outcome) : State := { s with run := s.run.setOutcome i o }

/-- Records the end of a stage and tells the observer. -/
def conclude (s : State) (i : Nat) (o : Outcome) : State := (s.put i o).notify (.stageFinished i o)

def land (s : State) (i : Nat) : State := { s with
  locks := s.locks.release i
  inFlight := s.inFlight.filter fun c => c.stage ≠ i }

def publish (s : State) (store : OutputStore) : State :=
  { s with run := { s.run with outputs := store } }

def launch (s : State) (i : Nat) (o : Outcome) (locks : Locks) (request : CommandRequest) :
    State where
  run := s.run.setOutcome i (o.begin s.run.clock)
  locks
  inFlight := s.inFlight ++ [{ stage := i, request, startedAt := s.run.clock }]
  notices := .stageStarted i request :: s.notices
  signal := s.signal

/-- Between the two states no command was started, none has landed and no cancel came. -/
structure Still (s s' : State) : Prop where
  starts : s'.starts = s.starts
  flights : s'.flights = s.flights
  cancelled : s'.run.cancelled = s.run.cancelled

theorem Still.refl (s : State) : s.Still s := ⟨rfl, rfl, rfl⟩

theorem Still.trans {s s' s'' : State} (h : s.Still s') (h' : s'.Still s'') : s.Still s'' :=
  ⟨h'.starts.trans h.starts, h'.flights.trans h.flights, h'.cancelled.trans h.cancelled⟩

theorem flights_fireSignals (s : State) : s.fireSignals.flights = s.flights := by
  rw [flights, fireSignals, List.map_map]
  exact List.map_congr_left fun c _ => c.stage_hear _ _

theorem still_fireSignals (s : State) : s.Still s.fireSignals :=
  ⟨rfl, s.flights_fireSignals, rfl⟩

def ask (s : State) : State := { s with run := { s.run with cancelled := true } }

section
variable (s : State) (i : Nat) (o : Outcome) (locks : Locks) (request : CommandRequest)

@[simp] theorem run_put : (s.put i o).run = s.run.setOutcome i o := rfl
@[simp] theorem locks_put : (s.put i o).locks = s.locks := rfl
@[simp] theorem flights_put : (s.put i o).flights = s.flights := rfl
@[simp] theorem starts_put : (s.put i o).starts = s.starts := rfl
@[simp] theorem run_conclude : (s.conclude i o).run = s.run.setOutcome i o := rfl
@[simp] theorem locks_conclude : (s.conclude i o).locks = s.locks := rfl
@[simp] theorem flights_conclude : (s.conclude i o).flights = s.flights := rfl
@[simp] theorem starts_conclude : (s.conclude i o).starts = s.starts := rfl
@[simp] theorem run_land : (s.land i).run = s.run := rfl
@[simp] theorem locks_land : (s.land i).locks = s.locks.release i := rfl
@[simp] theorem flights_land : (s.land i).flights = s.flights.filter (· ≠ i) := by
  simp [State.flights, State.land, List.filter_map, Function.comp_def]
@[simp] theorem starts_land : (s.land i).starts = s.starts := rfl
@[simp] theorem run_launch :
    (s.launch i o locks request).run = s.run.setOutcome i (o.begin s.run.clock) := rfl
@[simp] theorem locks_launch : (s.launch i o locks request).locks = locks := rfl
@[simp] theorem flights_launch : (s.launch i o locks request).flights = s.flights ++ [i] := by
  simp [State.flights, State.launch]
@[simp] theorem starts_launch : (s.launch i o locks request).starts = i :: s.starts := rfl
@[simp] theorem run_fireSignals : s.fireSignals.run = s.run := rfl

end

end State

theorem outcome?_start (u : Setup) (i : Nat) : (State.start u).run.outcome? i =
    (u.stage? i).map fun stage => { name := stage.name, optional := stage.allowFailure } := by
  simp [State.start, Run.start, Run.outcome?, Setup.stage?]

theorem outcome_of_start {u : Setup} {i : Nat} {o : Outcome}
    (ho : (State.start u).run.outcome? i = some o) : ∃ stage, u.stage? i = some stage ∧
      o = { name := stage.name, optional := stage.allowFailure } := by
  rw [outcome?_start] at ho
  obtain ⟨stage, hstage, rfl⟩ := Option.map_eq_some_iff.1 ho
  exact ⟨stage, hstage, rfl⟩

/-! ## Moves -/

/-- The stage has failed and must not. -/
def HasFailed (u : Setup) (s : State) (cause : Stage) : Prop :=
  ∃ j o, u.stage? j = some cause ∧ s.run.outcome? j = some o ∧ o.status = .failed ∧
    cause.allowFailure = false

/-- The failure of the first stage takes the second one along, in this status. -/
def Falls (u : Setup) (cause stage : Stage) (status : Status) : Prop :=
  (∃ group, cause.failFastGroup = some group ∧ fallsWith group stage status = true) ∨
    (u.pipeline.settings.failFast = true ∧ isAborted true stage status = true)

/-- A stage ends without a result of its own. -/
inductive Ends (u : Setup) (s : State) (i : Nat) (stage : Stage) (o : Outcome) :
    Outcome → Prop where
  | refuse {deps : Dependencies} {reason : SkipReason} :
      o.status = .pending → s.run.dependencies? i = some deps →
      Gate.decide u.trigger stage deps = .ok (.skip reason) →
      Ends u s i stage o (o.skip reason s.run.clock)
  | misgate {deps : Dependencies} {e : Error} :
      o.status = .pending → s.run.dependencies? i = some deps →
      Gate.decide u.trigger stage deps = .error e → Ends u s i stage o (o.fail e s.run.clock)
  | fall {cause : Stage} :
      o.status.isTerminal = false → HasFailed u s cause → Falls u cause stage o.status →
      Ends u s i stage o (o.skip (.failFast cause.name) s.run.clock)
  | withdraw :
      o.status.isTerminal = false → s.run.cancelled = true →
      Ends u s i stage o (o.skip .cancelled s.run.clock)

inductive Life (u : Setup) (env : Environment) (s : State) (i : Nat) (stage : Stage)
    (o : Outcome) : Outcome → Prop where
  | enqueue {deps : Dependencies} :
      o.status = .pending → s.run.dependencies? i = some deps →
      Gate.decide u.trigger stage deps = .ok .allow → Life u env s i stage o o.enqueue
  | launch {request : CommandRequest} :
      o.status = .queued → prepare u s stage = .ok request →
      Life u env s i stage o (o.begin s.run.clock)
  | unready {e : Error} :
      o.status = .queued → prepare u s stage = .error e →
      Life u env s i stage o (o.fail e s.run.clock)
  | finish {c : InFlight} {result : Except Error CommandOutput} :
      o.status = .running → c ∈ s.inFlight → c.stage = i → env.answers c result →
      Life u env s i stage o (o.close stage result s.run.clock)
  | ends {o' : Outcome} : Ends u s i stage o o' → Life u env s i stage o o'

inductive Move (u : Setup) (env : Environment) (s : State) : State → Prop where
  | enqueue {i : Nat} {stage : Stage} {o : Outcome} {deps : Dependencies} :
      s.run.outcome? i = some o → u.stage? i = some stage → o.status = .pending →
      s.run.dependencies? i = some deps → Gate.decide u.trigger stage deps = .ok .allow →
      Move u env s (s.put i o.enqueue)
  | launch {i : Nat} {stage : Stage} {o : Outcome} {locks : Locks} {request : CommandRequest} :
      s.run.outcome? i = some o → u.stage? i = some stage → o.status = .queued →
      s.inFlight.length < u.workers → lock? s.locks i stage = some locks →
      prepare u s stage = .ok request → Move u env s (s.launch i o locks request)
  /-- A stage that cannot be prepared gives its group back before it fails. -/
  | unready {i : Nat} {stage : Stage} {o : Outcome} {locks : Locks} {e : Error} :
      s.run.outcome? i = some o → u.stage? i = some stage → o.status = .queued →
      lock? s.locks i stage = some locks → prepare u s stage = .error e →
      Move u env s ({ s with locks := locks.release i }.conclude i (o.fail e s.run.clock))
  | conclude {i : Nat} {stage : Stage} {o o' : Outcome} :
      s.run.outcome? i = some o → u.stage? i = some stage → Ends u s i stage o o' →
      Move u env s (s.conclude i o')
  | finish {i : Nat} {stage : Stage} {o : Outcome} {c : InFlight}
      {result : Except Error CommandOutput} {store : OutputStore} :
      s.run.outcome? i = some o → u.stage? i = some stage → o.status = .running →
      c ∈ s.inFlight → c.stage = i → env.answers c result →
      s.run.outputs.receive (s.run.graph.name i) (stage.published? result) = .ok store →
      Move u env s (((s.land i).publish store).conclude i (o.close stage result s.run.clock))
  /-- The result of a stage that has ended before is dropped. -/
  | drop {c : InFlight} :
      c ∈ s.inFlight →
      (∀ o stage, s.run.outcome? c.stage = some o → u.stage? c.stage = some stage →
        o.status ≠ .running) →
      Move u env s (s.land c.stage)
  | signal : Move u env s s.fireSignals
  | ask : env.cancels → Move u env s s.ask
  | wake {now : Nat} : s.run.clock ≤ now → Move u env s (s.wakeAt now)

abbrev Moves (u : Setup) (env : Environment) : State → State → Prop :=
  Relation.ReflTransGen (Move u env)

variable {u : Setup} {env : Environment} {s s' : State} {i : Nat} {stage : Stage}
  {o o' : Outcome}

/-! ## Steps of a life -/

theorem Outcome.close_of_published? {values : Dict String} {result : Except Error CommandOutput}
    (h : stage.published? result = some values) (o : Outcome) (now : Nat) :
    (o.close stage result now).status = .succeeded ∧
      (o.close stage result now).outputs = values := by
  cases result with
  | error e => cases h
  | ok out =>
    simp only [Stage.published?] at h
    split at h
    · rename_i hs
      cases h
      simp only [Outcome.close, hs, if_true]
      exact ⟨rfl, rfl⟩
    · cases h

theorem Outcome.close_of_published?_none {result : Except Error CommandOutput}
    (h : stage.published? result = none) (o : Outcome) (now : Nat) :
    (o.close stage result now).status ≠ .succeeded := by
  cases result with
  | error e => simp [Outcome.close]
  | ok out =>
    simp only [Stage.published?] at h
    split at h
    · cases h
    · rename_i hs
      simp only [Outcome.close, hs]
      by_cases hc : out.cancelled = true <;> simp [hc]

theorem Outcome.close_isTerminal (o : Outcome) (stage : Stage)
    (result : Except Error CommandOutput) (now : Nat) :
    (o.close stage result now).status.isTerminal = true := by
  cases result with
  | error e => rfl
  | ok out =>
    simp only [Outcome.close]
    split
    · rfl
    · split <;> rfl

namespace Ends

theorem open_ (h : Ends u s i stage o o') : o.status.isTerminal = false := by
  cases h with
  | refuse hs | misgate hs => rw [hs]; rfl
  | fall hs | withdraw hs => exact hs

theorem isTerminal (h : Ends u s i stage o o') : o'.status.isTerminal = true := by
  cases h <;> rfl

theorem ne_succeeded (h : Ends u s i stage o o') : o'.status ≠ .succeeded := by
  cases h <;> simp

end Ends

namespace Life

/-- Only a stage that has not ended takes a step. -/
theorem open_ (h : Life u env s i stage o o') : o.status.isTerminal = false := by
  cases h with
  | enqueue hs | launch hs | unready hs | finish hs => rw [hs]; rfl
  | ends h => exact h.open_

theorem stepsLeft_lt (h : Life u env s i stage o o') :
    o'.status.stepsLeft < o.status.stepsLeft := by
  cases h with
  | enqueue hs | launch hs | unready hs => rw [hs]; simp [Status.stepsLeft]
  | finish hs =>
    rw [Status.stepsLeft_of_isTerminal (Outcome.close_isTerminal ..), hs]
    exact Nat.one_pos
  | ends h =>
    rw [Status.stepsLeft_of_isTerminal h.isTerminal]
    exact Status.stepsLeft_pos h.open_

theorem name_eq (h : Life u env s i stage o o') : o'.name = o.name := by
  cases h with
  | enqueue | launch | unready => rfl
  | @finish c result =>
    cases result with
    | error e => rfl
    | ok out =>
      simp only [Outcome.close]
      split
      · rfl
      · split <;> rfl
  | ends h => cases h <;> rfl

theorem optional_eq (h : Life u env s i stage o o') : o'.optional = o.optional := by
  cases h with
  | enqueue | launch | unready => rfl
  | @finish c result =>
    cases result with
    | error e => rfl
    | ok out =>
      simp only [Outcome.close]
      split
      · rfl
      · split <;> rfl
  | ends h => cases h <;> rfl

theorem departed (h : Life u env s i stage o o') (hs : o.status.waits = false) :
    o'.status.waits = false := by
  cases h with
  | enqueue hw | launch hw | unready hw => rw [hw] at hs; cases hs
  | finish => exact Status.waits_of_isTerminal (Outcome.close_isTerminal ..)
  | ends h => exact Status.waits_of_isTerminal h.isTerminal

theorem run_stepsLeft_lt (h : Life u env s i stage o o') (ho : s.run.outcome? i = some o) :
    (s.run.setOutcome i o').stepsLeft < s.run.stepsLeft := by
  have hlt := h.stepsLeft_lt
  have hsum := Run.stepsLeft_setOutcome ho o'
  omega

end Life

/-! ## Projections of a move -/

namespace Move

/-- A move changes the outcome of one stage at most, and that by a step of its life. -/
theorem life (h : Move u env s s') : s'.run.outcomes = s.run.outcomes ∨
    ∃ i stage o o', s.run.outcome? i = some o ∧ u.stage? i = some stage ∧
      Life u env s i stage o o' ∧ s'.run.outcomes = (s.run.setOutcome i o').outcomes := by
  cases h with
  | enqueue ho hstage hs hdeps hgate =>
    exact .inr ⟨_, _, _, _, ho, hstage, .enqueue hs hdeps hgate, rfl⟩
  | launch ho hstage hs _ _ hprep =>
    exact .inr ⟨_, _, _, _, ho, hstage, .launch hs hprep, rfl⟩
  | unready ho hstage hs _ hprep =>
    exact .inr ⟨_, _, _, _, ho, hstage, .unready hs hprep, rfl⟩
  | conclude ho hstage hend =>
    exact .inr ⟨_, _, _, _, ho, hstage, .ends hend, rfl⟩
  | finish ho hstage hs hc hi hans =>
    exact .inr ⟨_, _, _, _, ho, hstage, .finish hs hc hi hans, rfl⟩
  | drop | signal | ask | wake => exact .inl rfl

theorem outcome? (h : Move u env s s') (ho : s'.run.outcome? i = some o') :
    s.run.outcome? i = some o' ∨ ∃ stage o, s.run.outcome? i = some o ∧
      u.stage? i = some stage ∧ Life u env s i stage o o' := by
  rcases h.life with hsame | ⟨j, stage, a, b, ha, hstage, hlife, hset⟩
  · rw [Run.outcome?, hsame] at ho
    exact .inl ho
  · rw [Run.outcome?, hset, ← Run.outcome?, Run.outcome?_setOutcome ha] at ho
    split at ho
    · rename_i hij
      subst hij
      cases ho
      exact .inr ⟨stage, a, ha, hstage, hlife⟩
    · exact .inl ho

theorem graph_eq (h : Move u env s s') : s'.run.graph = s.run.graph := by
  cases h <;> rfl

theorem outcome?_next (h : Move u env s s') (ho : s.run.outcome? i = some o) :
    s'.run.outcome? i = some o ∨ ∃ stage o', s'.run.outcome? i = some o' ∧
      u.stage? i = some stage ∧ Life u env s i stage o o' := by
  rcases h.life with hsame | ⟨j, stage, a, b, ha, hstage, hlife, hset⟩
  · rw [Run.outcome?, hsame]
    exact .inl ho
  · rw [Run.outcome?, hset, ← Run.outcome?, Run.outcome?_setOutcome ha]
    by_cases hij : i = j
    · subst hij
      rw [ho] at ha
      cases ha
      exact .inr ⟨stage, b, by rw [if_pos rfl], hstage, hlife⟩
    · rw [if_neg hij]
      exact .inl ho

theorem kept (h : Move u env s s') (ho : s.run.outcome? i = some o)
    (hs : o.status.isTerminal = true) : s'.run.outcome? i = some o := by
  rcases h.outcome?_next ho with hsame | ⟨stage, o', _, _, hlife⟩
  · exact hsame
  · rw [hlife.open_] at hs
    cases hs

theorem departed (h : Move u env s s') (ho : s.run.outcome? i = some o)
    (hs : o.status.waits = false) : ∃ o', s'.run.outcome? i = some o' ∧
      o'.status.waits = false := by
  rcases h.outcome?_next ho with hsame | ⟨stage, o', ho', _, hlife⟩
  · exact ⟨o, hsame, hs⟩
  · exact ⟨o', ho', hlife.departed hs⟩

theorem hasFailed {cause : Stage} (h : Move u env s s') (hc : HasFailed u s cause) :
    HasFailed u s' cause := by
  obtain ⟨j, o, hstage, ho, hs, hopt⟩ := hc
  exact ⟨j, o, hstage, h.kept ho (by rw [hs]; rfl), hs, hopt⟩

theorem open_back (h : Move u env s s') (ho : s'.run.outcome? i = some o)
    (hs : o.status.isTerminal = false) :
    ∃ o', s.run.outcome? i = some o' ∧ o'.status.isTerminal = false := by
  rcases h.outcome? ho with ho | ⟨stage, o', ho', _, hlife⟩
  · exact ⟨o, ho, hs⟩
  · exact ⟨o', ho', hlife.open_⟩

theorem stepsLeft_le (h : Move u env s s') : s'.run.stepsLeft ≤ s.run.stepsLeft := by
  rcases h.life with hsame | ⟨j, stage, a, b, ha, _, hlife, hset⟩
  · rw [Run.stepsLeft, hsame]
    exact Nat.le_refl _
  · rw [Run.stepsLeft, hset, ← Run.stepsLeft]
    exact Nat.le_of_lt (hlife.run_stepsLeft_lt ha)

theorem cancelled (h : Move u env s s') (hc : s.run.cancelled = true) :
    s'.run.cancelled = true := by
  cases h with
  | ask => rfl
  | _ => exact hc

end Move

namespace Moves

theorem kept (h : Moves u env s s') (ho : s.run.outcome? i = some o)
    (hs : o.status.isTerminal = true) : s'.run.outcome? i = some o := by
  induction h with
  | refl => exact ho
  | tail _ hm ih => exact hm.kept ih hs

theorem open_back (h : Moves u env s s') (ho : s'.run.outcome? i = some o)
    (hs : o.status.isTerminal = false) :
    ∃ o', s.run.outcome? i = some o' ∧ o'.status.isTerminal = false := by
  induction h generalizing o with
  | refl => exact ⟨o, ho, hs⟩
  | tail _ hm ih =>
    obtain ⟨o', ho', hs'⟩ := hm.open_back ho hs
    exact ih ho' hs'

theorem stepsLeft_le (h : Moves u env s s') : s'.run.stepsLeft ≤ s.run.stepsLeft := by
  induction h with
  | refl => exact Nat.le_refl _
  | tail _ hm ih => exact Nat.le_trans hm.stepsLeft_le ih

theorem cancelled (h : Moves u env s s') (hc : s.run.cancelled = true) :
    s'.run.cancelled = true := by
  induction h with
  | refl => exact hc
  | tail _ hm ih => exact hm.cancelled ih

end Moves

end Scheduler
end Conveyor
