import Conveyor.Proofs.Run.Calls

/-!
# Conveyor.Proofs.Run.Records

What is recorded of a stage agrees with its status.

A mark writes the status of a stage and what belongs to it in one operation; a bare transition
writes the status alone. So the fields of an outcome, and the outcome and the store, agree as long
as stages are only marked.

* `Outcome.Coherent`  — the fields of an outcome agree with its status.
* `Filed`             — so do all outcomes, and the store holds the outputs of those that succeeded.
* `records_stay_coherent` — this is so after any marks, refused ones included, and every stage is
  found under its name.
-/

namespace Conveyor

/-- The call records what belongs to the status that it asks for. -/
def Call.isMark : Call → Bool
  | .transition .. => false
  | .queue _ | .begin _ | .skip .. | .fail .. | .succeed .. => true

/-- What is recorded of a stage is what its status calls for. -/
structure Outcome.Coherent (o : Outcome) : Prop where
  skipReason : o.skipReason.isSome = true ↔ o.status = .skipped
  error : o.error.isSome = true ↔ o.status = .failed
  outputs : o.status ≠ .succeeded → o.outputs = ∅
  started : o.status = .running ∨ o.status = .succeeded → o.startedAt.isSome = true
  unstarted : o.status = .pending ∨ o.status = .queued → o.startedAt = none
  finished : o.finishedAt.isSome = true ↔ o.status.isTerminal = true

variable {r : Run} {c : Call} {i : Nat} {o : Outcome} {stages : List Stage}

/-! ## One mark -/

namespace Outcome.Coherent

theorem blank (h : o.Coherent) (hs : o.status.isTerminal = false) :
    o.skipReason = none ∧ o.error = none ∧ o.outputs = ∅ ∧ o.finishedAt = none := by
  refine ⟨?_, ?_, ?_, ?_⟩
  · refine Option.not_isSome_iff_eq_none.1 fun hsome => ?_
    rw [h.skipReason.1 hsome] at hs
    cases hs
  · refine Option.not_isSome_iff_eq_none.1 fun hsome => ?_
    rw [h.error.1 hsome] at hs
    cases hs
  · refine h.outputs fun hsucceeded => ?_
    rw [hsucceeded] at hs
    cases hs
  · refine Option.not_isSome_iff_eq_none.1 fun hsome => ?_
    rw [h.finished.1 hsome] at hs
    cases hs

theorem revise (h : o.Coherent) (hmark : c.isMark = true)
    (hs : o.status.canBecome c.target = true) (now : Nat) : (c.revise o now).Coherent := by
  have hopen := Status.open_of_canBecome hs
  obtain ⟨hskip, herror, houtputs, hfinish⟩ := h.blank hopen
  cases c with
  | transition => cases hmark
  | queue i =>
    rw [Call.target, Status.canBecome_queued, decide_eq_true_eq] at hs
    have hstart := h.unstarted (.inl hs)
    constructor <;> simp [Call.revise, Outcome.enqueue, hskip, herror, houtputs, hfinish, hstart,
      Status.isTerminal]
  | begin i =>
    constructor <;> simp [Call.revise, Outcome.begin, hskip, herror, houtputs, hfinish,
      Status.isTerminal]
  | skip i reason =>
    constructor <;> simp [Call.revise, Outcome.skip, herror, houtputs, Status.isTerminal]
  | fail i error =>
    constructor <;> simp [Call.revise, Outcome.fail, hskip, herror, houtputs, Status.isTerminal]
  | succeed i outputs =>
    rw [Call.target, Status.canBecome_succeeded, decide_eq_true_eq] at hs
    have hstart := h.started (.inl hs)
    constructor <;> simp [Call.revise, Outcome.succeed, hskip, herror, hstart, Status.isTerminal]

end Outcome.Coherent

/-! ## Any marks -/

/-- The outcomes agree with their statuses and with what is published. -/
structure Filed (r : Run) : Prop where
  coherent : ∀ i o, r.outcome? i = some o → o.Coherent
  published : ∀ i o, r.outcome? i = some o →
    r.outputs.outputsOf o.name = if o.status = .succeeded then some o.outputs else none

theorem filed_start (p : Pipeline) (g : Graph) (t : Trigger) (dryRun : Bool) :
    Filed (Run.start p g t dryRun) := by
  have hblank : ∀ i o, (Run.start p g t dryRun).outcome? i = some o →
      ∃ name optional, o = { name, optional } := by
    intro i o ho
    simp only [Run.outcome?, Run.start, List.getElem?_map] at ho
    obtain ⟨stage, _, rfl⟩ := Option.map_eq_some_iff.1 ho
    exact ⟨_, _, rfl⟩
  constructor
  · intro i o ho
    obtain ⟨name, optional, rfl⟩ := hblank i o ho
    constructor <;> simp [Status.isTerminal]
  · intro i o ho
    obtain ⟨name, optional, rfl⟩ := hblank i o ho
    rfl

theorem Filed.wakeAt (h : Filed r) (now : Nat) : Filed (r.wakeAt now) :=
  ⟨h.coherent, h.published⟩

theorem Call.Effect.filed {result : Attempt} (he : c.Effect r result) (hmark : c.isMark = true)
    (hk : Kept stages r) (h : Filed r) : Filed result.1 := by
  cases he with
  | refused => exact h
  | @accepted o store ho hs hstore =>
    have hset := Run.outcome?_setOutcome (r := { r with outputs := store }) ho (c.revise o r.clock)
    refine ⟨?_, ?_⟩
    · intro j a ha
      rw [hset] at ha
      split at ha
      · cases ha
        exact (h.coherent c.stage o ho).revise hmark hs r.clock
      · exact h.coherent j a ha
    · intro j a ha
      have hreceived := OutputStore.outputsOf_receive hstore a.name
      rw [hset] at ha
      split at ha
      · cases ha
        rw [c.name_revise, if_pos rfl] at hreceived
        rw [c.name_revise]
        refine hreceived.trans ?_
        rw [c.status_revise]
        cases c with
        | transition => cases hmark
        | succeed => rfl
        | queue | begin | skip | fail =>
          have hopen := Status.open_of_canBecome hs
          have hold : o.status ≠ .succeeded := by
            intro hsucceeded
            rw [hsucceeded] at hopen
            cases hopen
          rw [h.published _ o ho, if_neg hold]
          rfl
      · rename_i hj
        have hne : a.name ≠ o.name := fun hname => hj (hk.name_inj ha ho hname)
        rw [if_neg hne] at hreceived
        exact hreceived.trans (h.published j a ha)

theorem Filed.after (h : Filed r) (hk : Kept stages r) {calls : List (Nat × Call)}
    (hmarks : ∀ call ∈ calls, call.2.isMark = true) : Filed (r.after calls) := by
  induction calls generalizing r with
  | nil => exact h
  | cons call rest ih =>
    obtain ⟨hmark, hrest⟩ := List.forall_mem_cons.1 hmarks
    have hwoken := hk.wakeAt call.1
    exact ih ((hwoken.effect call.2).filed hmark hwoken (h.wakeAt call.1))
      (hwoken.attempt call.2) hrest

/-- After any marks on a new run, accepted or refused, every stage of the definition is found under
its name with one outcome, whose fields agree with its status; and the store has the outputs of
that outcome if the stage has succeeded, and nothing of it otherwise. -/
theorem records_stay_coherent {p : Pipeline} {g : Graph} (hg : p.graph = .ok g) {t : Trigger}
    {dryRun : Bool} {calls : List (Nat × Call)}
    (hmarks : ∀ call ∈ calls, call.2.isMark = true)
    (hr : r = (Run.start p g t dryRun).after calls) {stage : Stage}
    (hstage : p.stages[i]? = some stage) :
    ∃ o, r.outcome? i = some o ∧ o.Coherent ∧
      r.outputs.outputsOf stage.name = (if o.status = .succeeded then some o.outputs else none) ∧
      r.outcomeByName? stage.name = some o ∧ r.statusOf? stage.name = some o.status := by
  have hdescribes : g.Describes p.stages := (Graph.describes_of_ofStages hg).1
  have hstart := kept_start hdescribes t dryRun
  have hkept : Kept p.stages r := by
    rw [hr]
    exact hstart.after calls
  have hfiled : Filed r := by
    rw [hr]
    exact (filed_start p g t dryRun).after hstart hmarks
  obtain ⟨o, ho, hname⟩ := hkept.outcome_of hstage
  have hfound : r.outcomeByName? stage.name = some o := by
    have hindex := hkept.graph.index?_eq_some_iff.2 ⟨stage, hstage, rfl⟩
    rw [Run.outcomeByName?, hindex, Option.bind_some, ho]
  refine ⟨o, ho, hfiled.coherent i o ho, ?_, hfound, ?_⟩
  · rw [← hname]
    exact hfiled.published i o ho
  · rw [Run.statusOf?, hfound, Option.map_some]

/-- The first stage succeeds, a second success of it is refused, and the stage behind it fails
before it has started. -/
theorem records_stay_coherent_pair :
    let values := Dict.ofList [("version", "1")]
    let r := (Run.start pairPipeline pairGraph default false).after
      [(1, .begin 0), (2, .queue 0), (3, .begin 0), (4, .succeed 0 values), (5, .succeed 0 ∅),
        (6, .queue 1), (7, .fail 1 .cancelled), (8, .skip 1 .cancelled)]
    (∃ o, r.outcomeByName? "build" = some o ∧ o.status = .succeeded ∧ o.Coherent ∧
      r.outputs.outputsOf "build" = some o.outputs) ∧
    ∃ o, r.outcomeByName? "test" = some o ∧ o.status = .failed ∧ o.Coherent ∧
      r.outputs.outputsOf "test" = none := by
  intro values r
  have hg : pairPipeline.graph = .ok pairGraph := rfl
  have hstatus : r.status? 0 = some .succeeded ∧ r.status? 1 = some .failed := by decide +kernel
  obtain ⟨o, ho, hcoherent, hpublished, hfound, _⟩ :=
    records_stay_coherent hg (by decide) (r := r) rfl (i := 0) rfl
  obtain ⟨o', ho', hcoherent', hpublished', hfound', _⟩ :=
    records_stay_coherent hg (by decide) (r := r) rfl (i := 1) rfl
  have hs : o.status = .succeeded := by simpa [Run.status?, ho] using hstatus.1
  have hs' : o'.status = .failed := by simpa [Run.status?, ho'] using hstatus.2
  rw [if_pos hs] at hpublished
  rw [if_neg (by rw [hs']; decide)] at hpublished'
  exact ⟨⟨o, hfound, hs, hcoherent, hpublished⟩, ⟨o', hfound', hs', hcoherent', hpublished'⟩⟩

end Conveyor
