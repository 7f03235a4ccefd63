import Conveyor.Proofs.Graph.Construction
import Conveyor.Proofs.Scheduler.Operations

/-!
# Conveyor.Proofs.Scheduler.Ledger

What is recorded about the stages of a run.

* `Titled`   — there is one outcome for every stage, with its name.
* `Ledger`   — a stage that has not ended has nothing recorded, and the published outputs are
               those of the stages that succeeded.
* `Admitted` — a stage that is queued or runs was let in by its gate, on the outcomes that its
               dependencies still have.

Each holds at every reachable point.
-/

namespace Conveyor

/-- Nothing is recorded but the progress of the stage. -/
structure Outcome.Blank (o : Outcome) : Prop where
  skipReason : o.skipReason = none
  error : o.error = none
  exitCode : o.exitCode = none
  outputs : o.outputs = ∅

namespace Scheduler

variable {u : Setup} {env : Environment} {s s' : State} {i : Nat} {stage : Stage}
  {o o' : Outcome}

theorem Setup.Accepted.describes (hu : u.Accepted) : u.graph.Describes u.pipeline.stages :=
  (Graph.describes_of_ofStages (graph_of_ensureValid hu.valid)).1

/-! ## Names -/

structure Titled (u : Setup) (s : State) : Prop where
  graph : s.run.graph = u.graph
  named : ∀ i o, s.run.outcome? i = some o → ∃ stage, u.stage? i = some stage ∧
    o.name = stage.name ∧ o.optional = stage.allowFailure
  present : ∀ i stage, u.stage? i = some stage → ∃ o, s.run.outcome? i = some o

theorem titled_start (u : Setup) : Titled u (State.start u) := by
  refine ⟨rfl, ?_, ?_⟩
  · intro i o ho
    obtain ⟨stage, hstage, rfl⟩ := outcome_of_start ho
    exact ⟨stage, hstage, rfl, rfl⟩
  · intro i stage hstage
    rw [outcome?_start, hstage]
    exact ⟨_, rfl⟩

theorem Titled.move (h : Titled u s) (hm : Move u env s s') : Titled u s' := by
  refine ⟨hm.graph_eq.trans h.graph, ?_, ?_⟩
  · intro i o' ho'
    rcases hm.outcome? ho' with ho | ⟨_, o, ho, _, hlife⟩
    · exact h.named i o' ho
    · obtain ⟨stage, hstage, hname, hopt⟩ := h.named i o ho
      exact ⟨stage, hstage, hlife.name_eq.trans hname, hlife.optional_eq.trans hopt⟩
  · intro i stage hstage
    obtain ⟨o, ho⟩ := h.present i stage hstage
    rcases hm.outcome?_next ho with ho' | ⟨_, o', ho', _, _⟩
    · exact ⟨o, ho'⟩
    · exact ⟨o', ho'⟩

theorem Reachable.titled {x : Point} (h : Reachable u env x) : Titled u x.state :=
  h.induct (Titled u) (titled_start u) fun _ _ ht hm => ht.move hm

theorem Titled.graph_name (h : Titled u s) (hg : u.graph.Describes u.pipeline.stages)
    (hstage : u.stage? i = some stage) : s.run.graph.name i = stage.name := by
  rw [h.graph]
  exact hg.name_eq hstage

theorem Titled.statusOf? (h : Titled u s) (hg : u.graph.Describes u.pipeline.stages)
    (hstage : u.stage? i = some stage) : s.run.statusOf? stage.name = s.run.status? i := by
  have hi : s.run.graph.index? stage.name = some i := by
    rw [h.graph]
    exact hg.index?_eq_some_iff.2 ⟨stage, hstage, rfl⟩
  rw [Run.statusOf?, Run.outcomeByName?, hi]
  rfl

theorem Titled.name_eq (h : Titled u s) (hstage : u.stage? i = some stage)
    (ho : s.run.outcome? i = some o) : o.name = stage.name := by
  obtain ⟨stage', hstage', hname, _⟩ := h.named i o ho
  rw [hstage] at hstage'
  cases hstage'
  exact hname

theorem Titled.of_statusOf? (ht : Titled u s) (hg : u.graph.Describes u.pipeline.stages)
    {name : String} {status : Status} (h : s.run.statusOf? name = some status) :
    ∃ i stage o, u.stage? i = some stage ∧ stage.name = name ∧
      s.run.outcome? i = some o ∧ o.status = status := by
  obtain ⟨o, ho, hs⟩ := Option.map_eq_some_iff.1 h
  obtain ⟨i, hi, ho⟩ := Option.bind_eq_some_iff.1 ho
  rw [ht.graph] at hi
  obtain ⟨stage, hstage, hname⟩ := hg.index?_eq_some_iff.1 hi
  exact ⟨i, stage, o, hstage, hname, ho, hs⟩

/-! ## Records -/

structure Ledger (u : Setup) (s : State) : Prop where
  blank : ∀ i o, s.run.outcome? i = some o → o.status.isTerminal = false → o.Blank
  published : ∀ i o, s.run.outcome? i = some o →
    s.run.outputs.outputsOf o.name = if o.status = .succeeded then some o.outputs else none

theorem ledger_start (u : Setup) : Ledger u (State.start u) := by
  constructor
  · intro i o ho _
    obtain ⟨stage, _, rfl⟩ := outcome_of_start ho
    exact ⟨rfl, rfl, rfl, rfl⟩
  · intro i o ho
    obtain ⟨stage, _, rfl⟩ := outcome_of_start ho
    rfl

theorem Life.blank (h : Life u env s i stage o o') (ho : o.Blank)
    (hs : o'.status.isTerminal = false) : o'.Blank := by
  cases h with
  | enqueue | launch => exact ⟨ho.skipReason, ho.error, ho.exitCode, ho.outputs⟩
  | unready => cases hs
  | finish =>
    rw [Outcome.close_isTerminal] at hs
    cases hs
  | ends h =>
    rw [h.isTerminal] at hs
    cases hs

namespace Ledger

theorem blank_move (h : Ledger u s) (hm : Move u env s s') (ho : s'.run.outcome? i = some o)
    (hs : o.status.isTerminal = false) : o.Blank := by
  rcases hm.outcome? ho with ho | ⟨_, a, ha, _, hlife⟩
  · exact h.blank i o ho hs
  · exact hlife.blank (h.blank i a ha hlife.open_) hs

/-- A move that publishes nothing and lets no stage succeed. -/
theorem of_kept (h : Ledger u s) (hm : Move u env s s') (houtputs : s'.run.outputs = s.run.outputs)
    (hsucceeded : ∀ j o, s'.run.outcome? j = some o → o.status = .succeeded →
      s.run.outcome? j = some o) : Ledger u s' := by
  refine ⟨fun i o => h.blank_move hm, ?_⟩
  intro j o ho
  rw [houtputs]
  rcases hm.outcome? ho with ho | ⟨_, a, ha, _, hlife⟩
  · exact h.published j o ho
  · have hold : a.status ≠ .succeeded := by
      intro hs
      have hopen := hlife.open_
      rw [hs] at hopen
      cases hopen
    have hnew : o.status ≠ .succeeded := by
      intro hs
      have hsame := hsucceeded j o ho hs
      rw [ha] at hsame
      cases hsame
      exact hold hs
    rw [if_neg hnew, hlife.name_eq, h.published j a ha, if_neg hold]

theorem finish (h : Ledger u s) (ht : Titled u s) (hg : u.graph.Describes u.pipeline.stages)
    {c : InFlight} {result : Except Error CommandOutput} {store : OutputStore}
    (ho : s.run.outcome? i = some o) (hstage : u.stage? i = some stage)
    (hs : o.status = .running) (hc : c ∈ s.inFlight) (hi : c.stage = i)
    (hans : env.answers c result)
    (hstore : s.run.outputs.receive (s.run.graph.name i) (stage.published? result) = .ok store) :
    Ledger u (((s.land i).publish store).conclude i (o.close stage result s.run.clock)) := by
  have hm : Move u env s (((s.land i).publish store).conclude i
    (o.close stage result s.run.clock)) := .finish ho hstage hs hc hi hans hstore
  have hset := Run.outcome?_setOutcome ho (o.close stage result s.run.clock)
  cases hp : stage.published? result with
  | none =>
    rw [hp] at hstore
    cases hstore
    refine h.of_kept hm rfl ?_
    intro j a ha has
    exact (Run.outcome?_of_setOutcome ho (Outcome.close_of_published?_none hp o _) ha has).1
  | some values =>
    rw [hp, ht.graph_name hg hstage] at hstore
    have hnew := OutputStore.outputsOf_publish hstore
    obtain ⟨hclosed, hvalues⟩ := Outcome.close_of_published? hp o s.run.clock
    have hname : (o.close stage result s.run.clock).name = stage.name := by
      have hlife : Life u env s i stage o (o.close stage result s.run.clock) :=
        .finish hs hc hi hans
      exact hlife.name_eq.trans (ht.name_eq hstage ho)
    refine ⟨fun j a => h.blank_move hm, ?_⟩
    intro j a ha
    have houtputs : (((s.land i).publish store).conclude i
        (o.close stage result s.run.clock)).run.outputs = store := rfl
    have ha' : (s.run.setOutcome i (o.close stage result s.run.clock)).outcome? j = some a := ha
    rw [houtputs, hnew]
    rw [hset] at ha'
    split at ha'
    · cases ha'
      rw [if_pos hname, if_pos hclosed, hvalues]
    · rename_i hij
      obtain ⟨other, hother, hn, _⟩ := ht.named j a ha'
      have hne : a.name ≠ stage.name := by
        intro heq
        exact hij (hg.name_inj hother hstage (hn ▸ heq))
      rw [if_neg hne]
      exact h.published j a ha'

theorem move (h : Ledger u s) (ht : Titled u s) (hg : u.graph.Describes u.pipeline.stages)
    (hm : Move u env s s') : Ledger u s' := by
  have hmove := hm
  cases hm with
  | enqueue ho | launch ho | unready ho =>
    exact h.of_kept hmove rfl fun j a ha has =>
      (Run.outcome?_of_setOutcome ho (by simp) ha has).1
  | conclude ho _ hend =>
    have hne := hend.ne_succeeded
    exact h.of_kept hmove rfl fun j a ha has => (Run.outcome?_of_setOutcome ho hne ha has).1
  | finish ho hstage hs hc hi hans hstore => exact h.finish ht hg ho hstage hs hc hi hans hstore
  | drop | signal | ask | wake => exact h.of_kept hmove rfl fun _ _ ha _ => ha

end Ledger

theorem Reachable.ledger (hg : u.graph.Describes u.pipeline.stages) {x : Point}
    (h : Reachable u env x) : Ledger u x.state :=
  (h.induct (fun s => Titled u s ∧ Ledger u s) ⟨titled_start u, ledger_start u⟩
    fun _ _ ⟨ht, hl⟩ hm => ⟨ht.move hm, hl.move ht hg hm⟩).2

theorem Ledger.can_publish (h : Ledger u s) (ht : Titled u s)
    (hg : u.graph.Describes u.pipeline.stages) (hstage : u.stage? i = some stage)
    (ho : s.run.outcome? i = some o) (hs : o.status = .running) (values : Dict String) :
    ∃ store, s.run.outputs.publish (s.run.graph.name i) values = .ok store := by
  apply OutputStore.publish_ok
  rw [ht.graph_name hg hstage, ← ht.name_eq hstage ho, h.published i o ho, hs]
  rfl

/-! ## Gates -/

/-- The gate of the stage lets it in, and its dependencies have ended. -/
def Allowed (u : Setup) (run : Run) (i : Nat) : Prop :=
  ∃ stage deps, u.stage? i = some stage ∧ run.dependencies? i = some deps ∧
    Gate.decide u.trigger stage deps = .ok .allow

def Admitted (u : Setup) (s : State) : Prop :=
  ∀ i o, s.run.outcome? i = some o → o.status = .queued ∨ o.status = .running →
    Allowed u s.run i

theorem Allowed.move (h : Allowed u s.run i) (hm : Move u env s s') : Allowed u s'.run i := by
  obtain ⟨stage, deps, hstage, hdeps, hgate⟩ := h
  refine ⟨stage, deps, hstage, ?_, hgate⟩
  exact Run.dependencies?_mono hm.graph_eq (fun _ _ => hm.kept) hdeps

theorem Admitted.move (h : Admitted u s) (hm : Move u env s s') : Admitted u s' := by
  intro i o' ho' hs'
  rcases hm.outcome? ho' with ho | ⟨stage, o, ho, hstage, hlife⟩
  · exact (h i o' ho hs').move hm
  · cases hlife with
    | enqueue hs hdeps hgate => exact Allowed.move ⟨stage, _, hstage, hdeps, hgate⟩ hm
    | launch hs => exact (h i o ho (.inl hs)).move hm
    | unready => rcases hs' with hs' | hs' <;> cases hs'
    | @finish c result =>
      have hend := Outcome.close_isTerminal o stage result s.run.clock
      rcases hs' with hs' | hs' <;> rw [hs'] at hend <;> cases hend
    | ends hend =>
      have hend := hend.isTerminal
      rcases hs' with hs' | hs' <;> rw [hs'] at hend <;> cases hend

theorem admitted_start (u : Setup) : Admitted u (State.start u) := by
  intro i o ho hs
  obtain ⟨stage, _, rfl⟩ := outcome_of_start ho
  rcases hs with hs | hs <;> cases hs

theorem Reachable.admitted {x : Point} (h : Reachable u env x) : Admitted u x.state :=
  h.induct (Admitted u) (admitted_start u) fun _ _ ha hm => ha.move hm

end Scheduler
end Conveyor
