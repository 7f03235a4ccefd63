import Conveyor.Gate

/-!
# Conveyor.Proofs.Gate.Decision

The answers of a gate, each with the check that gives it.

* `matchesAny_eq_true_iff`, `matchesAny_eq_false_iff` — what a list of globs answers, if all of them
                                                        can be read.
* `Gate.Unfiltered`  — no check before the condition decides.
* `Gate.Answers`     — an answer with the check that gives it.
* `Gate.answers`     — the answer of every gate.
-/

namespace Conveyor

/-! ## Lists of globs -/

def Glob.Covers (pattern name : String) : Prop :=
  ∃ g, Glob.compile pattern = .ok g ∧ g.accepts name = true

variable {branch : String} {patterns : List String}

theorem Glob.covers_iff {pattern : String} {g : Glob} (h : Glob.compile pattern = .ok g) :
    Glob.Covers pattern branch ↔ g.accepts branch = true := by
  simp [Covers, h]

/-- The list answers without an error if all of its globs can be read. -/
theorem matchesAny_of_readable (h : ∀ p ∈ patterns, ∃ g, Glob.compile p = .ok g) :
    matchesAny branch patterns = .ok true ∧ (∃ p ∈ patterns, Glob.Covers p branch) ∨
      matchesAny branch patterns = .ok false ∧ ∀ p ∈ patterns, ¬ Glob.Covers p branch := by
  induction patterns with
  | nil => exact .inr ⟨rfl, List.forall_mem_nil _⟩
  | cons p rest ih =>
    obtain ⟨⟨g, hg⟩, hrest⟩ := List.forall_mem_cons.1 h
    simp only [matchesAny, hg, List.mem_cons, exists_eq_or_imp, forall_eq_or_imp,
      Glob.covers_iff hg]
    by_cases haccepts : g.accepts branch = true
    · simp [haccepts]
    · simpa [haccepts] using ih hrest

theorem matchesAny_eq_true_iff (h : ∀ p ∈ patterns, ∃ g, Glob.compile p = .ok g) :
    matchesAny branch patterns = .ok true ↔ ∃ p ∈ patterns, Glob.Covers p branch := by
  rcases matchesAny_of_readable h with ⟨hans, hcovers⟩ | ⟨hans, hnone⟩
  · exact iff_of_true hans hcovers
  · exact iff_of_false (by simp [hans]) fun ⟨p, hp, hcovers⟩ => hnone p hp hcovers

theorem matchesAny_eq_false_iff (h : ∀ p ∈ patterns, ∃ g, Glob.compile p = .ok g) :
    matchesAny branch patterns = .ok false ↔ ∀ p ∈ patterns, ¬ Glob.Covers p branch := by
  rcases matchesAny_of_readable h with ⟨hans, p, hp, hcovers⟩ | ⟨hans, hnone⟩
  · exact iff_of_false (by simp [hans]) fun hnone => hnone p hp hcovers
  · exact iff_of_true hans hnone

theorem matchesAny_ne_error (h : ∀ p ∈ patterns, ∃ g, Glob.compile p = .ok g) (e : Error) :
    matchesAny branch patterns ≠ .error e := by
  rcases @matchesAny_of_readable branch _ h with ⟨hans, _⟩ | ⟨hans, _⟩ <;> simp [hans]

/-! ## Answers -/

namespace Gate

variable {t : Trigger} {stage : Stage} {deps : Dependencies}

theorem stoppedBy?_eq_none_iff : stoppedBy? stage deps = none ↔
    (stage.onFailure = .propagate → ∀ d ∈ deps, d.2.satisfies = true) := by
  unfold stoppedBy? blocker?
  split <;> simp_all

/-- Neither the dependencies of a stage nor the event of the run stop it. -/
structure Called (t : Trigger) (stage : Stage) (deps : Dependencies) : Prop where
  dependencies : stoppedBy? stage deps = none
  event : stage.conditions.events = [] ∨ t.event ∈ stage.conditions.events

/-- The branches of a stage are not given, or the branch of the run is one of them. -/
def Wants (stage : Stage) (branch : String) : Prop :=
  stage.conditions.branches = [] ∨ matchesAny branch stage.conditions.branches = .ok true

/-- No filter of a stage stops it, and its condition is what decides. -/
structure Unfiltered (t : Trigger) (stage : Stage) (deps : Dependencies) : Prop
    extends Called t stage deps where
  wanted : Wants stage t.branch
  kept : matchesAny t.branch stage.conditions.branchesIgnore = .ok false

/-- An answer with the check that gives it, after all the checks before it. -/
inductive Answers (t : Trigger) (stage : Stage) (deps : Dependencies) :
    Except Error Decision → Prop where
  | stopped {name : String} :
      stoppedBy? stage deps = some name →
      Answers t stage deps (.ok (.skip (.dependencyNotSucceeded name)))
  | otherEvent :
      stoppedBy? stage deps = none → stage.conditions.events ≠ [] →
      t.event ∉ stage.conditions.events →
      Answers t stage deps (.ok (.skip .eventFiltered))
  | branchesFail {e : Error} :
      Called t stage deps → stage.conditions.branches ≠ [] →
      matchesAny t.branch stage.conditions.branches = .error e →
      Answers t stage deps (.error (.gateEvaluation stage.name e.message))
  | otherBranch :
      Called t stage deps → stage.conditions.branches ≠ [] →
      matchesAny t.branch stage.conditions.branches = .ok false →
      Answers t stage deps (.ok (.skip .branchFiltered))
  | ignoredFail {e : Error} :
      Called t stage deps → Wants stage t.branch →
      matchesAny t.branch stage.conditions.branchesIgnore = .error e →
      Answers t stage deps (.error (.gateEvaluation stage.name e.message))
  | ignored :
      Called t stage deps → Wants stage t.branch →
      matchesAny t.branch stage.conditions.branchesIgnore = .ok true →
      Answers t stage deps (.ok (.skip .branchFiltered))
  | unconditional :
      Unfiltered t stage deps → stage.conditions.expression = none →
      Answers t stage deps (.ok .allow)
  | malformed {source : String} {e : Condition.SyntaxError} :
      Unfiltered t stage deps → stage.conditions.expression = some source →
      Condition.parse source = .error e →
      Answers t stage deps (.error (.gateEvaluation stage.name e.message))
  | conditionFails {source : String} {expr : Condition.Expr} {e : Condition.EvalError} :
      Unfiltered t stage deps → stage.conditions.expression = some source →
      Condition.parse source = .ok expr → expr.evaluate ⟨t, deps⟩ = .error e →
      Answers t stage deps (.error (.gateEvaluation stage.name e.message))
  | met {source : String} {expr : Condition.Expr} :
      Unfiltered t stage deps → stage.conditions.expression = some source →
      Condition.parse source = .ok expr → expr.evaluate ⟨t, deps⟩ = .ok true →
      Answers t stage deps (.ok .allow)
  | unmet {source : String} {expr : Condition.Expr} :
      Unfiltered t stage deps → stage.conditions.expression = some source →
      Condition.parse source = .ok expr → expr.evaluate ⟨t, deps⟩ = .ok false →
      Answers t stage deps (.ok (.skip .conditionFalse))

/-! ### Every gate gives one of the answers -/

theorem answers_condition (h : Unfiltered t stage deps) :
    Answers t stage deps (decideCondition t stage deps) := by
  rw [decideCondition]
  split
  · rename_i hnone
    exact .unconditional h hnone
  · rename_i source hsource
    split
    · rename_i hparse
      exact .malformed h hsource hparse
    · rename_i expr hparse
      split
      · rename_i hfails
        exact .conditionFails h hsource hparse hfails
      · rename_i hmet
        exact .met h hsource hparse hmet
      · rename_i hunmet
        exact .unmet h hsource hparse hunmet

theorem decide_of_called (h : Called t stage deps) :
    decide t stage deps = decideBranch t stage deps := by
  rw [decide, h.dependencies]
  rcases h.event with hnone | hmem
  · simp [hnone]
  · simp [hmem]

/-- What the ignored branches make of a stage that wants the branch of the run. -/
theorem decideBranch_of_wants (h : Wants stage t.branch) :
    (∀ e, matchesAny t.branch stage.conditions.branchesIgnore = .error e →
      decideBranch t stage deps = .error (.gateEvaluation stage.name e.message)) ∧
    (matchesAny t.branch stage.conditions.branchesIgnore = .ok true →
      decideBranch t stage deps = .ok (.skip .branchFiltered)) ∧
    (matchesAny t.branch stage.conditions.branchesIgnore = .ok false →
      decideBranch t stage deps = decideCondition t stage deps) := by
  rcases h with hnone | hwanted
  · refine ⟨fun e h => ?_, fun h => ?_, fun h => ?_⟩ <;> simp [decideBranch, hnone, h]
  · refine ⟨fun e h => ?_, fun h => ?_, fun h => ?_⟩ <;> simp [decideBranch, hwanted, h]

theorem answers_branch (h : Called t stage deps) :
    Answers t stage deps (decideBranch t stage deps) := by
  by_cases hwants : Wants stage t.branch
  · obtain ⟨hfails, hignored, hkept⟩ := @decideBranch_of_wants t stage deps hwants
    cases hignore : matchesAny t.branch stage.conditions.branchesIgnore with
    | error e => exact hfails e hignore ▸ .ignoredFail h hwants hignore
    | ok ignore =>
      cases ignore with
      | true => exact hignored hignore ▸ .ignored h hwants hignore
      | false => exact hkept hignore ▸ answers_condition ⟨h, hwants, hignore⟩
  · obtain ⟨hsome, hother⟩ := not_or.1 hwants
    simp only [decideBranch, List.isEmpty_iff, if_neg hsome]
    split
    · rename_i hfails
      exact .branchesFail h hsome hfails
    · rename_i hother
      exact .otherBranch h hsome hother
    · contradiction

theorem answers : Answers t stage deps (decide t stage deps) := by
  cases hstopped : stoppedBy? stage deps with
  | some name =>
    rw [decide, hstopped]
    exact .stopped hstopped
  | none =>
    by_cases hevent : stage.conditions.events = [] ∨ t.event ∈ stage.conditions.events
    · rw [decide_of_called ⟨hstopped, hevent⟩]
      exact answers_branch ⟨hstopped, hevent⟩
    · obtain ⟨hsome, hother⟩ := not_or.1 hevent
      have hskip : decide t stage deps = .ok (.skip .eventFiltered) := by
        simp [decide, hstopped, hsome, hother]
      rw [hskip]
      exact .otherEvent hstopped hsome hother

theorem decide_of_unfiltered (h : Unfiltered t stage deps) :
    decide t stage deps = decideCondition t stage deps := by
  rw [decide_of_called h.toCalled, (decideBranch_of_wants h.wanted).2.2 h.kept]

end Gate
end Conveyor
