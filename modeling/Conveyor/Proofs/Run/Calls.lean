import Conveyor.Proofs.Graph.Construction
import Conveyor.Proofs.Output.Resolution
import Conveyor.Proofs.Run.Marks

/-!
# Conveyor.Proofs.Run.Calls

What callers can do to a run.

Callers choose the operations, their arguments and their instants as they like. Success is the one
operation that has two parts: it moves the stage, then publishes its outputs. It is still done as
a whole or not at all, because only a stage that has succeeded has published anything (`Kept`), and
a stage succeeds once.

* `Call`           — an operation with its arguments; `Call.attempt` is what it comes to.
* `Run.after`      — what a sequence of calls leaves behind, refused ones included.
* `Call.Effect`    — the two ways a call can go.
* `Kept`           — the invariant of all calls.
* `calls_are_atomic` — a refused call changes nothing, an accepted one nothing but its stage, and
  what is recorded of a stage that has ended is final.
-/

namespace Conveyor

/-- An operation on a run, with its arguments. -/
inductive Call where
  | transition (stage : Nat) (next : Status)
  | queue (stage : Nat)
  | begin (stage : Nat)
  | skip (stage : Nat) (reason : SkipReason)
  | fail (stage : Nat) (error : Error)
  | succeed (stage : Nat) (outputs : Dict String)
  deriving DecidableEq, Repr

namespace Call

def stage : Call → Nat
  | .transition i _ | .queue i | .begin i | .skip i _ | .fail i _ | .succeed i _ => i

def target : Call → Status
  | .transition _ next => next
  | .queue _ => .queued
  | .begin _ => .running
  | .skip .. => .skipped
  | .fail .. => .failed
  | .succeed .. => .succeeded

def attempt : Call → Run → Attempt
  | .transition i next, r => r.transition i next
  | .queue i, r => r.markQueued i
  | .begin i, r => r.markRunning i
  | .skip i reason, r => r.markSkipped i reason
  | .fail i error, r => r.markFailed i error
  | .succeed i outputs, r => r.markSucceeded i outputs

/-- The outcome of the stage once the call is accepted. -/
def revise : Call → Outcome → Nat → Outcome
  | .transition _ next, o, now => o.moveTo next now
  | .queue _, o, _ => o.enqueue
  | .begin _, o, now => o.begin now
  | .skip _ reason, o, now => o.skip reason now
  | .fail _ error, o, now => o.fail error now
  | .succeed _ outputs, o, now => o.succeed outputs now

def published? : Call → Option (Dict String)
  | .succeed _ outputs => some outputs
  | _ => none

end Call

def Run.wakeAt (r : Run) (now : Nat) : Run := { r with clock := now }

/-- What is left after some calls, each made at its instant. -/
def Run.after (r : Run) : List (Nat × Call) → Run
  | [] => r
  | (now, c) :: rest => (c.attempt (r.wakeAt now)).1.after rest

theorem Attempt.eq_of_accepted {a : Attempt} {r : Run} (h : a.accepted = .ok r) :
    a = (r, none) := by
  obtain ⟨left, refusal⟩ := a
  cases refusal with
  | none =>
    cases h
    rfl
  | some e => cases h

variable {r : Run} {c : Call} {i : Nat} {o : Outcome} {stages : List Stage}

/-! ## One call -/

theorem Outcome.moveTo_status (o : Outcome) (next : Status) (now : Nat) :
    (o.moveTo next now).status = next := by
  unfold moveTo
  split
  · rfl
  · split <;> rfl

theorem Outcome.moveTo_name (o : Outcome) (next : Status) (now : Nat) :
    (o.moveTo next now).name = o.name := by
  unfold moveTo
  split
  · rfl
  · split <;> rfl

/-- A step that is not allowed is refused, and leaves the run as it is. -/
theorem Run.transition_refused {next : Status}
    (h : ∀ o, r.outcome? i = some o → o.status.canBecome next = false) :
    ∃ e, r.transition i next = (r, some e) := by
  unfold transition
  cases ho : r.outcome? i with
  | none => exact ⟨_, rfl⟩
  | some o =>
    simp only [h o ho]
    exact ⟨_, rfl⟩

namespace Call

theorem status_revise (c : Call) (o : Outcome) (now : Nat) :
    (c.revise o now).status = c.target := by
  cases c with
  | transition => exact o.moveTo_status ..
  | queue | begin | skip | fail | succeed => rfl

theorem name_revise (c : Call) (o : Outcome) (now : Nat) : (c.revise o now).name = o.name := by
  cases c with
  | transition => exact o.moveTo_name ..
  | queue | begin | skip | fail | succeed => rfl

theorem attempt_of_refused
    (h : ∀ o, r.outcome? c.stage = some o → o.status.canBecome c.target = false) :
    ∃ e, c.attempt r = (r, some e) := by
  obtain ⟨e, he⟩ := Run.transition_refused h
  refine ⟨e, ?_⟩
  cases c with
  | transition | queue | begin => exact he
  | skip | fail | succeed =>
    simp only [attempt, Run.markSkipped, Run.markFailed, Run.markSucceeded]
    simp only [stage, target] at he
    simp only [he]

/-- A step that is allowed is made, if what is to be published can be. -/
theorem attempt_of_allowed {store : OutputStore} (ho : r.outcome? c.stage = some o)
    (hs : o.status.canBecome c.target = true)
    (hstore : r.outputs.receive (r.graph.name c.stage) c.published? = .ok store) :
    c.attempt r = ({ r with outputs := store }.setOutcome c.stage (c.revise o r.clock), none) := by
  cases c with
  | transition i next =>
    cases hstore
    exact Run.transition_ok ho hs
  | queue i =>
    cases hstore
    rw [target, Status.canBecome_queued, decide_eq_true_eq] at hs
    exact Attempt.eq_of_accepted (Run.accepted_markQueued ho hs)
  | begin i =>
    cases hstore
    rw [target, Status.canBecome_running, decide_eq_true_eq] at hs
    exact Attempt.eq_of_accepted (Run.accepted_markRunning ho hs)
  | skip i reason =>
    cases hstore
    rw [target, Status.canBecome_skipped, Bool.not_eq_true'] at hs
    exact Attempt.eq_of_accepted (Run.accepted_markSkipped ho hs reason)
  | fail i error =>
    cases hstore
    rw [target, Status.canBecome_failed, Bool.not_eq_true'] at hs
    exact Attempt.eq_of_accepted (Run.accepted_markFailed ho hs error)
  | succeed i outputs =>
    rw [target, Status.canBecome_succeeded, decide_eq_true_eq] at hs
    have hpublish : r.outputs.publish (r.graph.name i) outputs = .ok store := hstore
    have hmark := Run.accepted_markSucceeded (i := i) ho hs outputs
    rw [hpublish] at hmark
    exact Attempt.eq_of_accepted hmark

/-- The two ways a call can go. -/
inductive Effect (c : Call) (r : Run) : Attempt → Prop where
  | refused {e : Error} :
      (∀ o, r.outcome? c.stage = some o → o.status.canBecome c.target = false) →
      Effect c r (r, some e)
  | accepted {o : Outcome} {store : OutputStore} :
      r.outcome? c.stage = some o → o.status.canBecome c.target = true →
      r.outputs.receive o.name c.published? = .ok store →
      Effect c r ({ r with outputs := store }.setOutcome c.stage (c.revise o r.clock), none)

end Call

/-! ## What all calls keep -/

/-- There is one outcome for every stage, with its name, and no stage has published that has not
succeeded. -/
structure Kept (stages : List Stage) (r : Run) : Prop where
  graph : r.graph.Describes stages
  named : ∀ i, (r.outcome? i).map (·.name) = stages[i]?.map (·.name)
  published : ∀ i o, r.outcome? i = some o → o.status ≠ .succeeded →
    r.outputs.outputsOf o.name = none

theorem kept_start {p : Pipeline} {g : Graph} (hg : g.Describes p.stages) (t : Trigger)
    (dryRun : Bool) : Kept p.stages (Run.start p g t dryRun) := by
  refine ⟨hg, ?_, fun _ _ _ _ => rfl⟩
  intro i
  simp only [Run.outcome?, Run.start, List.getElem?_map, Option.map_map]
  rfl

namespace Kept

theorem wakeAt (h : Kept stages r) (now : Nat) : Kept stages (r.wakeAt now) :=
  ⟨h.graph, h.named, h.published⟩

theorem stage_of (h : Kept stages r) (ho : r.outcome? i = some o) :
    ∃ stage, stages[i]? = some stage ∧ o.name = stage.name := by
  have hnamed := h.named i
  rw [ho] at hnamed
  obtain ⟨stage, hstage, hname⟩ := Option.map_eq_some_iff.1 hnamed.symm
  exact ⟨stage, hstage, hname.symm⟩

theorem outcome_of (h : Kept stages r) {stage : Stage} (hstage : stages[i]? = some stage) :
    ∃ o, r.outcome? i = some o ∧ o.name = stage.name := by
  have hnamed := h.named i
  rw [hstage] at hnamed
  exact Option.map_eq_some_iff.1 hnamed

theorem graph_name (h : Kept stages r) (ho : r.outcome? i = some o) : r.graph.name i = o.name := by
  obtain ⟨stage, hstage, hname⟩ := h.stage_of ho
  rw [h.graph.name_eq hstage, hname]

theorem name_inj (h : Kept stages r) {j : Nat} {a : Outcome} (ho : r.outcome? i = some o)
    (ha : r.outcome? j = some a) (hname : o.name = a.name) : i = j := by
  obtain ⟨stage, hstage, hn⟩ := h.stage_of ho
  obtain ⟨other, hother, hm⟩ := h.stage_of ha
  exact h.graph.name_inj hstage hother (hn.symm.trans (hname.trans hm))

/-- A call that is allowed is accepted: what success publishes was not published before. -/
theorem effect (h : Kept stages r) (c : Call) : c.Effect r (c.attempt r) := by
  by_cases hallowed : ∃ o, r.outcome? c.stage = some o ∧ o.status.canBecome c.target = true
  · obtain ⟨o, ho, hs⟩ := hallowed
    obtain ⟨store, hstore⟩ : ∃ store, r.outputs.receive o.name c.published? = .ok store := by
      cases c with
      | succeed i outputs =>
        rw [Call.target, Status.canBecome_succeeded, decide_eq_true_eq] at hs
        exact OutputStore.publish_ok (h.published i o ho (by simp [hs])) outputs
      | transition | queue | begin | skip | fail => exact ⟨_, rfl⟩
    rw [Call.attempt_of_allowed ho hs (by rw [h.graph_name ho]; exact hstore)]
    exact .accepted ho hs hstore
  · have hrefused : ∀ o, r.outcome? c.stage = some o → o.status.canBecome c.target = false :=
      fun o ho => Bool.eq_false_iff.2 fun hs => hallowed ⟨o, ho, hs⟩
    obtain ⟨e, he⟩ := Call.attempt_of_refused hrefused
    rw [he]
    exact .refused hrefused

end Kept

theorem OutputStore.outputsOf_receive {store store' : OutputStore} {name : String}
    {values : Option (Dict String)} (h : store.receive name values = .ok store') (n : String) :
    store'.outputsOf n = if n = name then values <|> store.outputsOf n else store.outputsOf n := by
  cases values with
  | none =>
    cases h
    simp
  | some values => exact outputsOf_publish h n

theorem Call.published?_eq_none (h : c.target ≠ .succeeded) : c.published? = none := by
  cases c with
  | succeed => exact absurd rfl h
  | transition | queue | begin | skip | fail => rfl

theorem Call.Effect.kept {result : Attempt} (he : c.Effect r result) (h : Kept stages r) :
    Kept stages result.1 := by
  cases he with
  | refused => exact h
  | @accepted o store ho hs hstore =>
    have hset := Run.outcome?_setOutcome (r := { r with outputs := store }) ho (c.revise o r.clock)
    have hopen := Status.open_of_canBecome hs
    have hold : o.status ≠ .succeeded := by
      intro hsucceeded
      rw [hsucceeded] at hopen
      cases hopen
    refine ⟨h.graph, ?_, ?_⟩
    · intro j
      rw [hset]
      split
      · rename_i hj
        subst hj
        rw [← h.named, ho, Option.map_some, Option.map_some, c.name_revise]
      · exact h.named j
    · intro j a ha has
      rw [hset] at ha
      split at ha
      · cases ha
        rw [c.status_revise] at has
        rw [Call.published?_eq_none has] at hstore
        cases hstore
        rw [c.name_revise]
        exact h.published c.stage o ho hold
      · rename_i hj
        have hne : a.name ≠ o.name := fun hname => hj (h.name_inj ha ho hname)
        have hother := OutputStore.outputsOf_receive hstore a.name
        rw [if_neg hne] at hother
        exact hother.trans (h.published j a ha has)

theorem Kept.attempt (h : Kept stages r) (c : Call) : Kept stages (c.attempt r).1 :=
  (h.effect c).kept h

theorem Kept.after (h : Kept stages r) (calls : List (Nat × Call)) :
    Kept stages (r.after calls) := by
  induction calls generalizing r with
  | nil => exact h
  | cons call rest ih => exact ih ((h.wakeAt call.1).attempt call.2)

/-! ## Atomicity -/

/-- A call is done as a whole or not at all, and it concerns one stage. -/
structure Atomic (stages : List Stage) (c : Call) (r : Run) (result : Attempt) : Prop where
  /-- Nothing but the status of the stage makes a call fail. -/
  accepted : result.2 = none ↔
    ∃ o, r.outcome? c.stage = some o ∧ o.status.canBecome c.target = true
  done : result.2 = none → result.1.status? c.stage = some c.target
  refused : ∀ e, result.2 = some e → result.1 = r
  others : ∀ j stage, j ≠ c.stage → stages[j]? = some stage →
    result.1.outcome? j = r.outcome? j ∧
      result.1.outputs.outputsOf stage.name = r.outputs.outputsOf stage.name
  forward : ∀ j o o', r.outcome? j = some o → result.1.outcome? j = some o' →
    o'.status ≠ o.status → o.status.canBecome o'.status = true

theorem Call.Effect.atomic {result : Attempt} (he : c.Effect r result) (h : Kept stages r) :
    Atomic stages c r result := by
  cases he with
  | @refused e hrefused =>
    refine ⟨⟨nofun, ?_⟩, nofun, fun _ _ => rfl, fun _ _ _ _ => ⟨rfl, rfl⟩, ?_⟩
    · rintro ⟨o, ho, hs⟩
      rw [hrefused o ho] at hs
      cases hs
    · intro j o o' ho ho' hne
      rw [ho] at ho'
      cases ho'
      exact absurd rfl hne
  | @accepted o store ho hs hstore =>
    have hset := Run.outcome?_setOutcome (r := { r with outputs := store }) ho (c.revise o r.clock)
    refine ⟨⟨fun _ => ⟨o, ho, hs⟩, fun _ => rfl⟩, ?_, nofun, ?_, ?_⟩
    · intro _
      rw [Run.status?, hset, if_pos rfl, Option.map_some, c.status_revise]
    · intro j stage hj hstage
      refine ⟨by rw [hset, if_neg hj]; rfl, ?_⟩
      obtain ⟨a, ha, hname⟩ := h.outcome_of hstage
      have hne : stage.name ≠ o.name := by
        intro heq
        exact hj (h.name_inj ha ho (hname.trans heq))
      exact (OutputStore.outputsOf_receive hstore stage.name).trans (if_neg hne)
    · intro j a a' ha ha' hne
      rw [hset] at ha'
      split at ha'
      · rename_i hj
        subst hj
        rw [ho] at ha
        cases ha
        cases ha'
        rw [c.status_revise]
        exact hs
      · have hsame : r.outcome? j = some a' := ha'
        rw [ha] at hsame
        cases hsame
        exact absurd rfl hne

/-- No call changes anything of a stage that has ended. -/
theorem Kept.final (h : Kept stages r) (ho : r.outcome? i = some o)
    (hs : o.status.isTerminal = true) (calls : List (Nat × Call)) :
    (r.after calls).outcome? i = some o ∧
      (r.after calls).outputs.outputsOf o.name = r.outputs.outputsOf o.name := by
  induction calls generalizing r with
  | nil => exact ⟨ho, rfl⟩
  | cons call rest ih =>
    obtain ⟨now, c⟩ := call
    have hwoken := h.wakeAt now
    have hatomic := (hwoken.effect c).atomic hwoken
    obtain ⟨hsame, hstore⟩ : (c.attempt (r.wakeAt now)).1.outcome? i = some o ∧
        (c.attempt (r.wakeAt now)).1.outputs.outputsOf o.name = r.outputs.outputsOf o.name := by
      by_cases hi : i = c.stage
      · have hnone : (c.attempt (r.wakeAt now)).2 ≠ none := by
          intro haccepted
          obtain ⟨a, ha, has⟩ := hatomic.accepted.1 haccepted
          rw [← hi] at ha
          have hao : some o = some a := ho.symm.trans ha
          cases hao
          rw [Status.open_of_canBecome has] at hs
          cases hs
        obtain ⟨e, he⟩ := Option.ne_none_iff_exists'.1 hnone
        rw [hatomic.refused e he]
        exact ⟨ho, rfl⟩
      · obtain ⟨stage, hstage, hname⟩ := h.stage_of ho
        obtain ⟨hout, hpub⟩ := hatomic.others i stage hi hstage
        rw [hname]
        exact ⟨hout.trans ho, hpub⟩
    obtain ⟨hlast, hpublished⟩ := ih (hwoken.attempt c) hsame
    exact ⟨hlast, hpublished.trans hstore⟩

/-- On a run of any definition that has a graph, after any calls whatever, a call is done as a whole
or not at all. It is refused for the status of its stage only, so success never moves a stage
without publishing its outputs. What is recorded and published of a stage that has ended is
final. -/
theorem calls_are_atomic {p : Pipeline} {g : Graph} (hg : p.graph = .ok g) {t : Trigger}
    {dryRun : Bool} {earlier : List (Nat × Call)}
    (hr : r = (Run.start p g t dryRun).after earlier) :
    (∀ now c, Atomic p.stages c (r.wakeAt now) (c.attempt (r.wakeAt now))) ∧
    ∀ i o, r.outcome? i = some o → o.status.isTerminal = true →
      ∀ later, (r.after later).outcome? i = some o ∧
        (r.after later).outputs.outputsOf o.name = r.outputs.outputsOf o.name := by
  have hdescribes : g.Describes p.stages := (Graph.describes_of_ofStages hg).1
  have hkept : Kept p.stages r := by
    rw [hr]
    exact (kept_start hdescribes t dryRun).after earlier
  refine ⟨fun now c => ?_, fun i o ho hs => hkept.final ho hs⟩
  have hwoken := hkept.wakeAt now
  exact (hwoken.effect c).atomic hwoken

/-- Two stages, one behind the other. -/
def pairPipeline : Pipeline where
  name := "p"
  stages :=
    [ { name := "build", run := .script "make", outputs := ["version"] },
      { name := "test", run := .script "test", dependsOn := ["build"] } ]

def pairGraph : Graph where
  names := ["build", "test"]
  places := .ofList [("build", 0), ("test", 1)]
  edges := [(0, 1)]
  predecessors := [[], [0]]
  successors := [[1], []]

/-- The first stage succeeds, and keeps what it has published. The second is moved to success by
bare transitions, and after that its success is refused as a whole. -/
theorem calls_are_atomic_pair :
    let values := Dict.ofList [("version", "1")]
    let r := (Run.start pairPipeline pairGraph default false).after
      [(1, .queue 0), (2, .begin 0), (3, .succeed 0 values), (4, .transition 1 .queued),
        (5, .transition 1 .running), (6, .transition 1 .succeeded)]
    ((Call.succeed 1 values).attempt (r.wakeAt 7)).1 = r.wakeAt 7 ∧
      (r.after [(8, .fail 0 .cancelled), (9, .succeed 0 ∅)]).outputs.outputsOf "build" =
        some values := by
  intro values r
  have hg : pairPipeline.graph = .ok pairGraph := rfl
  obtain ⟨hatomic, hfinal⟩ := calls_are_atomic hg (r := r) rfl
  obtain ⟨e, he⟩ : ∃ e, ((Call.succeed 1 values).attempt (r.wakeAt 7)).2 = some e :=
    Option.isSome_iff_exists.1 (by decide +kernel)
  obtain ⟨o, ho, hname, hs⟩ : ∃ o, r.outcome? 0 = some o ∧ o.name = "build" ∧
      o.status.isTerminal = true := ⟨_, rfl, rfl, rfl⟩
  have hpublished : r.outputs.outputsOf "build" = some values := by decide +kernel
  obtain ⟨_, hkept⟩ := hfinal 0 o ho hs [(8, .fail 0 .cancelled), (9, .succeed 0 ∅)]
  rw [hname, hpublished] at hkept
  exact ⟨(hatomic 7 _).refused e he, hkept⟩

end Conveyor
