import Conveyor.Run
import Mathlib.Algebra.GroupWithZero.Nat

/-!
# Conveyor.Proofs.Run.Marks

What each mark leaves behind, when it is accepted.

* `Outcome.enqueue`, `Outcome.begin`, `Outcome.skip`, `Outcome.fail`, `Outcome.succeed`
    — the outcome of a stage after each step of its life.
* `Run.accepted_markQueued` and its siblings — a mark on a stage of the right status is accepted
  and changes the outcome of that stage only.
* `Run.stepsLeft` — how many steps the stages of a run can still take.

A step is refused for its status only, so these equations are all that later proofs use.
-/

namespace Conveyor

namespace Status

theorem canBecome_skipped (s : Status) : s.canBecome .skipped = !s.isTerminal := by
  cases s <;> rfl

theorem canBecome_failed (s : Status) : s.canBecome .failed = !s.isTerminal := by
  cases s <;> rfl

theorem canBecome_queued (s : Status) : s.canBecome .queued = decide (s = .pending) := by
  cases s <;> rfl

theorem canBecome_running (s : Status) : s.canBecome .running = decide (s = .queued) := by
  cases s <;> rfl

theorem canBecome_succeeded (s : Status) : s.canBecome .succeeded = decide (s = .running) := by
  cases s <;> rfl

/-- Nothing comes after the end. -/
theorem open_of_canBecome {s next : Status} (h : s.canBecome next = true) :
    s.isTerminal = false := by
  cases s with
  | pending | queued | running => rfl
  | succeeded | failed | skipped => cases h

/-- The stage has neither started nor ended. -/
def waits : Status → Bool
  | .pending | .queued => true
  | .running | .succeeded | .failed | .skipped => false

theorem waits_of_isTerminal {s : Status} (h : s.isTerminal = true) : s.waits = false := by
  cases s <;> first | rfl | cases h

theorem open_of_waits {s : Status} (h : s.waits = true) : s.isTerminal = false := by
  cases hended : s.isTerminal with
  | false => rfl
  | true =>
    rw [waits_of_isTerminal hended] at h
    cases h

theorem running_of_open {s : Status} (hopen : s.isTerminal = false) (hs : s.waits = false) :
    s = .running := by
  cases s with
  | running => rfl
  | pending | queued => cases hs
  | succeeded | failed | skipped => cases hopen

/-- The steps of the longest life that is left. -/
def stepsLeft : Status → Nat
  | .pending => 3
  | .queued => 2
  | .running => 1
  | .succeeded | .failed | .skipped => 0

theorem stepsLeft_of_isTerminal {s : Status} (h : s.isTerminal = true) : s.stepsLeft = 0 := by
  cases s <;> first | rfl | cases h

theorem stepsLeft_pos {s : Status} (h : s.isTerminal = false) : 0 < s.stepsLeft := by
  cases s <;> first | decide | cases h

end Status

namespace Outcome

/-! ## Outcomes after a step -/

def enqueue (o : Outcome) : Outcome := { o with status := .queued }

def begin (o : Outcome) (now : Nat) : Outcome :=
  { o with status := .running, startedAt := some now }

def skip (o : Outcome) (reason : SkipReason) (now : Nat) : Outcome :=
  { o with status := .skipped, finishedAt := some now, skipReason := some reason }

/-- The first error of a stage is kept. -/
def fail (o : Outcome) (e : Error) (now : Nat) : Outcome :=
  { o with status := .failed, finishedAt := some now, error := o.error <|> some e }

def succeed (o : Outcome) (outputs : Dict String) (now : Nat) : Outcome :=
  { o with status := .succeeded, finishedAt := some now, outputs }

def log (o : Outcome) (stdout stderr : String) (exitCode : Option Int) : Outcome :=
  { o with stdout, stderr, exitCode }

@[simp] theorem status_enqueue (o : Outcome) : o.enqueue.status = .queued := rfl
@[simp] theorem status_begin (o : Outcome) (now : Nat) : (o.begin now).status = .running := rfl
@[simp] theorem status_skip (o : Outcome) (reason : SkipReason) (now : Nat) :
    (o.skip reason now).status = .skipped := rfl
@[simp] theorem status_fail (o : Outcome) (e : Error) (now : Nat) :
    (o.fail e now).status = .failed := rfl
@[simp] theorem status_succeed (o : Outcome) (outputs : Dict String) (now : Nat) :
    (o.succeed outputs now).status = .succeeded := rfl

theorem asDependency_isSome (o : Outcome) : o.asDependency.isSome = o.status.isTerminal := by
  unfold asDependency
  cases o.status <;> rfl

end Outcome

namespace Run

variable {r : Run} {i : Nat} {o : Outcome}

/-! ## Reading after writing -/

@[simp] theorem graph_setOutcome (r : Run) (i : Nat) (o : Outcome) :
    (r.setOutcome i o).graph = r.graph := rfl

@[simp] theorem clock_setOutcome (r : Run) (i : Nat) (o : Outcome) :
    (r.setOutcome i o).clock = r.clock := rfl

theorem outcome?_setOutcome (h : r.outcome? i = some o) (o' : Outcome) (j : Nat) :
    (r.setOutcome i o').outcome? j = if j = i then some o' else r.outcome? j := by
  have hi : i < r.outcomes.length := (List.getElem?_eq_some_iff.1 h).1
  by_cases hj : j = i
  · subst hj; simp [outcome?, setOutcome, hi]
  · simp [outcome?, setOutcome, hj, List.getElem?_set_ne (Ne.symm hj)]

/-- A stage that has a status which was not just given had it before. -/
theorem outcome?_of_setOutcome {j : Nat} {a b : Outcome} {st : Status}
    (ha : r.outcome? i = some a) (hb : b.status ≠ st) (ho : (r.setOutcome i b).outcome? j = some o)
    (hs : o.status = st) : r.outcome? j = some o ∧ j ≠ i := by
  rw [outcome?_setOutcome ha] at ho
  split at ho
  · cases ho
    exact absurd hs hb
  · rename_i hne
    exact ⟨ho, hne⟩

theorem setOutcome_setOutcome (r : Run) (i : Nat) (a b : Outcome) :
    (r.setOutcome i a).setOutcome i b = r.setOutcome i b := by
  simp [setOutcome, List.set_set]

theorem record_eq (h : r.outcome? i = some o) (f : Outcome → Outcome) :
    r.record i f = r.setOutcome i (f o) := by
  have ho : r.outcomes[i]? = some o := h
  simp [record, setOutcome, List.modify_eq_set, ho]

theorem record_setOutcome (h : r.outcome? i = some o) (a : Outcome) (f : Outcome → Outcome) :
    (r.setOutcome i a).record i f = r.setOutcome i (f a) := by
  have ha : (r.setOutcome i a).outcome? i = some a := by simp [outcome?_setOutcome h]
  rw [record_eq ha, setOutcome_setOutcome]

/-! ## Marks -/

theorem transition_ok (h : r.outcome? i = some o) {next : Status}
    (hs : o.status.canBecome next = true) :
    r.transition i next = (r.setOutcome i (o.moveTo next r.clock), none) := by
  simp only [transition, h, hs, if_true]

theorem accepted_markQueued (h : r.outcome? i = some o) (hs : o.status = .pending) :
    (r.markQueued i).accepted = .ok (r.setOutcome i o.enqueue) := by
  rw [markQueued, transition_ok h (by rw [hs]; rfl)]
  rfl

theorem accepted_markRunning (h : r.outcome? i = some o) (hs : o.status = .queued) :
    (r.markRunning i).accepted = .ok (r.setOutcome i (o.begin r.clock)) := by
  rw [markRunning, transition_ok h (by rw [hs]; rfl)]
  rfl

theorem accepted_markSkipped (h : r.outcome? i = some o) (hs : o.status.isTerminal = false)
    (reason : SkipReason) :
    (r.markSkipped i reason).accepted = .ok (r.setOutcome i (o.skip reason r.clock)) := by
  rw [markSkipped, transition_ok h (by simp [Status.canBecome_skipped, hs])]
  simp only [record_setOutcome h]
  rfl

theorem accepted_markFailed (h : r.outcome? i = some o) (hs : o.status.isTerminal = false)
    (e : Error) : (r.markFailed i e).accepted = .ok (r.setOutcome i (o.fail e r.clock)) := by
  rw [markFailed, transition_ok h (by simp [Status.canBecome_failed, hs])]
  simp only [record_setOutcome h]
  rfl

/-- Success publishes, and is refused only if that is. -/
theorem accepted_markSucceeded (h : r.outcome? i = some o) (hs : o.status = .running)
    (outputs : Dict String) :
    (r.markSucceeded i outputs).accepted = (r.outputs.publish (r.graph.name i) outputs).map
      fun store => { r with outputs := store }.setOutcome i (o.succeed outputs r.clock) := by
  rw [markSucceeded, transition_ok h (by rw [hs]; rfl)]
  have hp : (r.setOutcome i (o.moveTo .succeeded r.clock)).outputs = r.outputs := rfl
  simp only [hp, graph_setOutcome]
  cases r.outputs.publish (r.graph.name i) outputs with
  | error e => rfl
  | ok store =>
    have hr : Run.outcome? { r with outputs := store } i = some o := h
    have hset := record_setOutcome hr (o.moveTo .succeeded r.clock)
      fun o => { o with outputs := outputs }
    exact congrArg Except.ok hset

theorem recordLogs_eq (h : r.outcome? i = some o) (stdout stderr : String)
    (exitCode : Option Int) :
    r.recordLogs i stdout stderr exitCode = r.setOutcome i (o.log stdout stderr exitCode) := by
  rw [recordLogs, record_eq h]
  rfl

/-! ## Progress -/

/-- The steps that the stages can still take. -/
def stepsLeft (r : Run) : Nat := (r.outcomes.map (·.status.stepsLeft)).sum

theorem stepsLeft_setOutcome (h : r.outcome? i = some o) (o' : Outcome) :
    (r.setOutcome i o').stepsLeft + o.status.stepsLeft =
      r.stepsLeft + o'.status.stepsLeft := by
  have hl : ∀ (l : List Outcome) (i : Nat), l[i]? = some o →
      ((l.set i o').map (·.status.stepsLeft)).sum + o.status.stepsLeft =
        (l.map (·.status.stepsLeft)).sum + o'.status.stepsLeft := by
    intro l
    induction l with
    | nil => intro i h; cases h
    | cons a rest ih =>
      intro i h
      cases i with
      | zero =>
        cases h
        simp only [List.set_cons_zero, List.map_cons, List.sum_cons]
        omega
      | succ i =>
        have := ih i h
        simp only [List.set_cons_succ, List.map_cons, List.sum_cons]
        omega
  exact hl r.outcomes i h

theorem stepsLeft_start (p : Pipeline) (g : Graph) (t : Trigger) (dryRun : Bool) :
    (start p g t dryRun).stepsLeft = 3 * p.stages.length := by
  simp only [stepsLeft, start, List.map_map]
  induction p.stages with
  | nil => rfl
  | cons s rest ih =>
    rw [List.map_cons, List.sum_cons, ih, List.length_cons]
    simp only [Function.comp, Status.stepsLeft]
    omega

/-! ## Dependencies -/

theorem dependencyOutcomes?_isSome (r : Run) : ∀ (l : List Nat),
    (r.dependencyOutcomes? l).isSome = true ↔
      ∀ d ∈ l, ∃ o, r.outcome? d = some o ∧ o.status.isTerminal = true := by
  intro l
  induction l with
  | nil => simp [dependencyOutcomes?]
  | cons d rest ih =>
    rw [dependencyOutcomes?]
    cases ho : r.outcome? d with
    | none => simp [ho]
    | some o =>
      have hdep := o.asDependency_isSome
      cases hd : o.asDependency with
      | none =>
        have hs : o.status.isTerminal = false := by rw [← hdep, hd]; rfl
        simp [ho, hd, hs]
      | some dep =>
        have hs : o.status.isTerminal = true := by rw [← hdep, hd]; rfl
        simp [ho, hd, hs, ih]

/-- What is answered about stages that have ended is what a function says of each of them. -/
theorem filterMap_of_dependencyOutcomes? {r : Run}
    {f : Nat → Option (String × DependencyOutcome)}
    (hf : ∀ d o dep, r.outcome? d = some o → o.asDependency = some dep →
      f d = some (r.graph.name d, dep)) :
    ∀ {l : List Nat} {deps : Dependencies}, r.dependencyOutcomes? l = some deps →
      l.filterMap f = deps := by
  intro l
  induction l with
  | nil =>
    intro deps hdeps
    cases hdeps
    rfl
  | cons d rest ih =>
    intro deps hdeps
    rw [dependencyOutcomes?] at hdeps
    split at hdeps
    · cases hdeps
    · rename_i dep hdep
      obtain ⟨o, ho, hdep⟩ := Option.bind_eq_some_iff.1 hdep
      obtain ⟨more, hmore, rfl⟩ := Option.map_eq_some_iff.1 hdeps
      rw [List.filterMap_cons, hf d o dep ho hdep, ih hmore]

theorem dependencyOutcomes?_eq {r : Run} {l : List Nat} {deps : Dependencies}
    (h : r.dependencyOutcomes? l = some deps) :
    deps = l.filterMap fun d => ((r.outcome? d).bind Outcome.asDependency).map
      fun dep => (r.graph.name d, dep) := by
  refine (filterMap_of_dependencyOutcomes? ?_ h).symm
  intro d o dep ho hdep
  rw [ho, Option.bind_some, hdep, Option.map_some]

theorem dependencies?_isSome {r : Run} {i : Nat} : (r.dependencies? i).isSome = true ↔
    ∀ d ∈ r.graph.predecessorsOf i, ∃ o, r.outcome? d = some o ∧ o.status.isTerminal = true :=
  r.dependencyOutcomes?_isSome _

theorem dependencies?_mono {r r' : Run} {i : Nat} {deps : Dependencies}
    (hgraph : r'.graph = r.graph)
    (hkept : ∀ d o, r.outcome? d = some o → o.status.isTerminal = true → r'.outcome? d = some o)
    (h : r.dependencies? i = some deps) : r'.dependencies? i = some deps := by
  have hl : ∀ (l : List Nat) deps, r.dependencyOutcomes? l = some deps →
      r'.dependencyOutcomes? l = some deps := by
    intro l
    induction l with
    | nil => intro deps h; exact h
    | cons d rest ih =>
      intro deps h
      rw [dependencyOutcomes?] at h ⊢
      cases ho : r.outcome? d with
      | none => rw [ho] at h; cases h
      | some o =>
        rw [ho] at h
        cases hd : o.asDependency with
        | none => rw [Option.bind_some, hd] at h; cases h
        | some dep =>
          have hterm : o.status.isTerminal = true := by
            rw [← o.asDependency_isSome, hd]; rfl
          rw [Option.bind_some, hd] at h
          rw [hkept d o ho hterm, Option.bind_some, hd, hgraph]
          cases hrest : r.dependencyOutcomes? rest with
          | none => simp only [hrest] at h; cases h
          | some more =>
            simp only [hrest, Option.map_some] at h
            simp only [ih more hrest, Option.map_some]
            exact h
  rw [dependencies?] at h ⊢
  rw [hgraph]
  exact hl _ deps h

end Run
end Conveyor
