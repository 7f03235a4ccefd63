import Conveyor.Proofs.Condition.Failures
import Conveyor.Proofs.Condition.Reading
import Conveyor.Proofs.Gate.Decision
import Conveyor.Validation

/-!
# Conveyor.Proofs.Gate.Foresight

What the checks of a definition foresee of its gates.

The checks warn of every glob that cannot be read and of a condition that cannot be parsed. A
condition that can be parsed knows all its names, also in operands that are never evaluated; so if
nothing is foretold, what is left to fail at a gate is a call that depends on the run.

* `Validation.Foretold`        — a warning says that a stage will fail at its gate.
* `foretold_stageFindings`     — when the checks of a stage say so.
* `Gate.Passes`                — no filter of a stage stops it, said without the checks of a gate.
* `Gate.fails_iff_call_breaks` — when nothing is foretold, which gates fail, and by what.
-/

namespace Conveyor

/-! ## Warnings of failing gates -/

/-- A warning that ends with the remark on gates. -/
def Finding.ForetellsFailure (f : Finding) : Prop :=
  ∃ text, f = .warning (text ++ Validation.failsWhenGated)

namespace Validation

/-- One of the findings says that the stage will fail at its gate. -/
def Foretold (findings : List Finding) : Prop := ∃ f ∈ findings, f.ForetellsFailure

variable {p : Pipeline} {stage : Stage} {l m : List Finding} {f : Finding} {a b text : String}
  {c : Char}

theorem foretold_append : Foretold (l ++ m) ↔ Foretold l ∨ Foretold m := by
  simp only [Foretold, List.mem_append, or_and_right, exists_or]

theorem foretold_cons : Foretold (f :: l) ↔ f.ForetellsFailure ∨ Foretold l := by
  simp only [Foretold, List.mem_cons, or_and_right, exists_or, exists_eq_left]

theorem foretold_flatMap {α : Type} {as : List α} {g : α → List Finding} :
    Foretold (as.flatMap g) ↔ ∃ x ∈ as, Foretold (g x) := by
  simp only [Foretold, List.mem_flatMap]
  exact ⟨fun ⟨f, ⟨x, hx, hf⟩, h⟩ => ⟨x, hx, f, hf, h⟩, fun ⟨x, hx, f, hf, h⟩ => ⟨f, ⟨x, hx, hf⟩, h⟩⟩

theorem not_foretold_nil : ¬ Foretold [] := by simp [Foretold]

theorem foretold_singleton : Foretold [f] ↔ f.ForetellsFailure := by
  rw [foretold_cons, or_iff_left not_foretold_nil]

theorem not_foretold_ite {k : Prop} [Decidable k] (h : ¬ f.ForetellsFailure) :
    ¬ Foretold (if k then [f] else []) := by
  split
  · exact mt foretold_singleton.1 h
  · exact not_foretold_nil

theorem not_foretold_unless {k : Prop} [Decidable k] (h : ¬ f.ForetellsFailure) :
    ¬ Foretold (if k then [] else [f]) := by
  split
  · exact not_foretold_nil
  · exact mt foretold_singleton.1 h

theorem not_foretells_error : ¬ (Finding.error text).ForetellsFailure := nofun

theorem getLast?_toList_append (h : b.toList.getLast? = some c) :
    (a ++ b).toList.getLast? = some c := by
  rw [String.toList_append, List.getLast?_append, h]
  rfl

/-- A remark with another end is no such warning. -/
theorem not_foretells_about (h : b.toList.getLast? = some c) (hc : c ≠ ')') :
    ¬ (Finding.warning (about stage (a ++ b))).ForetellsFailure := by
  rintro ⟨front, hfront⟩
  injection hfront with hfront
  have hend : (about stage (a ++ b)).toList.getLast? = some c :=
    getLast?_toList_append (getLast?_toList_append h)
  have hgated : (about stage (a ++ b)).toList.getLast? = some ')' := by
    rw [hfront]
    exact getLast?_toList_append (by decide)
  exact hc (Option.some.inj (hend.symm.trans hgated))

theorem foretells_gated :
    (Finding.warning (about stage (text ++ failsWhenGated))).ForetellsFailure :=
  ⟨_, by rw [about, ← String.append_assoc]⟩

/-! ### The checks of a stage -/

theorem not_foretold_inputFindings {name : String} {r : OutputRef} :
    ¬ Foretold (inputFindings p stage name r) := by
  rw [inputFindings]
  split
  · exact not_foretold_unless not_foretells_error
  · rw [foretold_append, foretold_append]
    rintro ((hname | hkey) | hdeclared)
    · exact not_foretold_unless not_foretells_error hname
    · exact not_foretold_unless not_foretells_error hkey
    · refine not_foretold_unless (not_foretells_about ?_ (show '.' ≠ ')' by decide)) hdeclared
      decide

theorem not_foretold_repeatedOutputs : ∀ (outputs seen : List String),
    ¬ Foretold (repeatedOutputs stage seen outputs)
  | [], _ => not_foretold_nil
  | key :: rest, seen => by
    rw [repeatedOutputs]
    split
    · rw [foretold_cons]
      rintro (hrepeated | hrest)
      · refine not_foretells_about ?_ (show 'e' ≠ ')' by decide) hrepeated
        decide
      · exact not_foretold_repeatedOutputs rest _ hrest
    · exact not_foretold_repeatedOutputs rest _

theorem not_foretold_secretFindings : ¬ Foretold (secretFindings stage) := by
  rintro ⟨f, hf, hforetells⟩
  obtain ⟨secret, _, hsecret⟩ := List.mem_filterMap.1 hf
  split at hsecret <;> cases hsecret
  exact not_foretells_error hforetells

theorem not_foretold_policyFindings : ¬ Foretold (policyFindings stage) := by
  refine not_foretold_ite ?_
  have hsplit : "on_failure has no effect on a stage without dependencies" =
      "on_failure has no effect on a stage without " ++ "dependencies" := by decide
  rw [hsplit]
  exact not_foretells_about (by decide) (show 's' ≠ ')' by decide)

theorem foretold_patternFindings : Foretold (patternFindings stage) ↔
    ∃ pattern ∈ stage.conditions.branches ++ stage.conditions.branchesIgnore,
      ∃ flaw, Glob.compile pattern = .error flaw := by
  simp only [Foretold, patternFindings, List.mem_filterMap]
  constructor
  · rintro ⟨f, ⟨pattern, hpattern, hf⟩, _⟩
    split at hf
    · cases hf
    · rename_i flaw hflaw
      exact ⟨pattern, hpattern, flaw, hflaw⟩
  · rintro ⟨pattern, hpattern, flaw, hflaw⟩
    exact ⟨_, ⟨pattern, hpattern, by rw [hflaw]⟩, foretells_gated⟩

theorem foretold_conditionFindings : Foretold (conditionFindings stage) ↔
    ∃ source e, stage.conditions.expression = some source ∧
      Condition.parse source = .error e := by
  rw [conditionFindings]
  cases hsource : stage.conditions.expression with
  | none => simp [not_foretold_nil]
  | some source =>
    cases hparse : Condition.parse source with
    | ok expr => simp [hparse, not_foretold_nil]
    | error e => simpa [hparse, foretold_singleton] using foretells_gated

/-- The checks of a stage foretell that its gate fails exactly if a glob of its branches cannot be
read or its condition cannot be parsed. -/
theorem foretold_stageFindings : Foretold (stageFindings p stage) ↔
    (∃ pattern ∈ stage.conditions.branches ++ stage.conditions.branchesIgnore,
      ∃ flaw, Glob.compile pattern = .error flaw) ∨
    ∃ source e, stage.conditions.expression = some source ∧
      Condition.parse source = .error e := by
  simp only [stageFindings, foretold_append, foretold_flatMap, foretold_patternFindings,
    foretold_conditionFindings, not_foretold_inputFindings, not_foretold_repeatedOutputs,
    not_foretold_secretFindings, not_foretold_policyFindings,
    not_foretold_unless not_foretells_error, not_foretold_ite not_foretells_error, and_false,
    exists_false, false_or, or_false]

end Validation

/-! ## Gates of which nothing is foretold -/

namespace Gate

open Condition (Context Expr parse)
open Validation (Foretold stageFindings)

variable {t : Trigger} {stage : Stage} {deps : Dependencies} {err : Error}

/-- No filter of a stage stops it. -/
structure Passes (t : Trigger) (stage : Stage) (deps : Dependencies) : Prop where
  dependencies : stage.onFailure = .propagate → ∀ d ∈ deps, d.2.satisfies = true
  event : stage.conditions.events = [] ∨ t.event ∈ stage.conditions.events
  wanted : stage.conditions.branches = [] ∨
    ∃ pattern ∈ stage.conditions.branches, Glob.Covers pattern t.branch
  kept : ∀ pattern ∈ stage.conditions.branchesIgnore, ¬ Glob.Covers pattern t.branch

def Readable (stage : Stage) : Prop :=
  ∀ pattern ∈ stage.conditions.branches ++ stage.conditions.branchesIgnore,
    ∃ g, Glob.compile pattern = .ok g

theorem unfiltered_iff_passes (h : Readable stage) :
    Unfiltered t stage deps ↔ Passes t stage deps := by
  obtain ⟨hbranches, hignore⟩ := List.forall_mem_append.1 h
  constructor
  · intro hfree
    exact ⟨stoppedBy?_eq_none_iff.1 hfree.dependencies, hfree.event,
      hfree.wanted.imp id (matchesAny_eq_true_iff hbranches).1,
      (matchesAny_eq_false_iff hignore).1 hfree.kept⟩
  · intro hpasses
    exact ⟨⟨stoppedBy?_eq_none_iff.2 hpasses.dependencies, hpasses.event⟩,
      hpasses.wanted.imp id (matchesAny_eq_true_iff hbranches).2,
      (matchesAny_eq_false_iff hignore).2 hpasses.kept⟩

theorem readable_of_not_foretold {p : Pipeline} (h : ¬ Foretold (stageFindings p stage)) :
    Readable stage := by
  intro pattern hpattern
  cases hglob : Glob.compile pattern with
  | ok g => exact ⟨g, rfl⟩
  | error flaw =>
    exact absurd (Validation.foretold_stageFindings.2 (.inl ⟨pattern, hpattern, flaw, hglob⟩)) h

/-- A gate of which nothing is foretold fails exactly if no filter stops the stage and its
condition fails. -/
theorem decide_eq_error_iff {p : Pipeline} (h : ¬ Foretold (stageFindings p stage)) :
    decide t stage deps = .error err ↔ Passes t stage deps ∧ ∃ source expr e,
      stage.conditions.expression = some source ∧ parse source = .ok expr ∧
      expr.eval ⟨t, deps⟩ = .error e ∧ err = .gateEvaluation stage.name e.message := by
  have hreadable := readable_of_not_foretold h
  obtain ⟨hbranches, hignore⟩ := List.forall_mem_append.1 hreadable
  rw [← unfiltered_iff_passes hreadable]
  constructor
  · intro hfails
    have hanswers : Answers t stage deps (.error err) := hfails ▸ answers
    cases hanswers with
    | branchesFail _ _ hmatch => exact absurd hmatch (matchesAny_ne_error hbranches _)
    | ignoredFail _ _ hmatch => exact absurd hmatch (matchesAny_ne_error hignore _)
    | malformed _ hsource hparse =>
      exact absurd (Validation.foretold_stageFindings.2 (.inr ⟨_, _, hsource, hparse⟩)) h
    | conditionFails hfree hsource hparse heval =>
      exact ⟨hfree, _, _, _, hsource, hparse, Expr.evaluate_eq_error_iff.1 heval, rfl⟩
  · rintro ⟨hfree, source, expr, e, hsource, hparse, heval, rfl⟩
    rw [decide_of_unfiltered hfree, decideCondition, hsource]
    simp only [hparse, Expr.evaluate_eq_error_iff.2 heval]

/-- If the checks foretell nothing of the gate of a stage, it fails exactly if no filter stops the
stage and the evaluation of its condition comes to a call of `outcome` with what is not the name of
a direct dependency, or of `matches` with what is no glob, and then with the error of that call.
Anywhere in a condition that was parsed, whether it is evaluated or not, the facts and the functions
are known, the functions have as many arguments as they take, and an operand fails in no other way.
A condition without calls of these two never fails. -/
theorem fails_iff_call_breaks {p : Pipeline} (h : ¬ Foretold (stageFindings p stage)) :
    (∀ t deps err, decide t stage deps = .error err ↔
      Passes t stage deps ∧ ∃ source expr call e,
        stage.conditions.expression = some source ∧ parse source = .ok expr ∧
        expr.Reaches ⟨t, deps⟩ call ∧ call.Breaks ⟨t, deps⟩ e ∧
        err = .gateEvaluation stage.name e.message) ∧
    ∀ source expr, parse source = .ok expr →
      (expr.Everywhere fun x => (∀ e, ¬ x.Misnamed e) ∧
        ∀ ctx e, x.eval ctx = .error e → ∃ call, x.Reaches ctx call ∧ call.Breaks ctx e) ∧
      (expr.Everywhere Expr.Settled → ∀ ctx, ∃ b, expr.evaluate ctx = .ok b) := by
  have hnamed {source : String} {expr : Expr} (hparse : parse source = .ok expr) :
      expr.WellNamed := by
    obtain ⟨_, _, _, hnamed⟩ := Condition.parse_eq_ok_iff.1 hparse
    exact hnamed
  refine ⟨fun t deps err => ?_, fun source expr hparse => ⟨?_, (hnamed hparse).evaluates⟩⟩
  · rw [decide_eq_error_iff h]
    refine and_congr_right fun _ => ⟨?_, ?_⟩
    · rintro ⟨source, expr, e, hsource, hparse, heval, herr⟩
      obtain ⟨call, hreaches, hbreaks⟩ := (hnamed hparse).error_iff.1 heval
      exact ⟨source, expr, call, e, hsource, hparse, hreaches, hbreaks, herr⟩
    · rintro ⟨source, expr, call, e, hsource, hparse, hreaches, hbreaks, herr⟩
      have heval := (hnamed hparse).error_iff.2 ⟨call, hreaches, hbreaks⟩
      exact ⟨source, expr, e, hsource, hparse, heval, herr⟩
  · refine (hnamed hparse).imp (fun x hx _ => ⟨fun e => ?_, fun ctx e => ?_⟩) (hnamed hparse)
    · exact hx.self.not_misnamed
    · exact (Expr.WellNamed.error_iff hx).1

/-- The condition names a stage that is not a dependency, and comes to it only after a failure. -/
theorem fails_iff_call_breaks_after_failure :
    let stage : Stage := {
      name := "publish"
      run := .script "make publish"
      dependsOn := ["build"]
      onFailure := .proceed
      conditions := {
        branches := ["release/*"]
        expression := some "success() || outcome('lint') == 'success'" } }
    ¬ Foretold (stageFindings { name := "demo", stages := [stage] } stage) ∧
    decide ⟨.push, "refs/heads/release/v1"⟩ stage [("build", .succeeded)] = .ok .allow ∧
    decide ⟨.push, "refs/heads/release/v1"⟩ stage [("build", .failed false)] =
      .error (.gateEvaluation "publish" "outcome('lint') does not name a direct dependency") := by
  intro stage
  have hparse : parse "success() || outcome('lint') == 'success'" =
      .ok (.or (.call "success" []) (.eq (.call "outcome" [.str "lint"]) (.str "success"))) := by
    have hscan : Condition.Token.scan "success() || outcome('lint') == 'success'" =
        .ok [.word "success", .opening, .closing, .either, .word "outcome", .opening, .str "lint",
          .closing, .same, .str "success"] := by decide +kernel
    simp only [parse, hscan]
    rfl
  have hglob : Glob.compile "release/*" =
      .ok ⟨"release/*", [.literal 'r', .literal 'e', .literal 'l', .literal 'e', .literal 'a',
        .literal 's', .literal 'e', .literal '/', .segment]⟩ := by decide +kernel
  have hreadable : Readable stage := by simp [Readable, stage, hglob]
  have hquiet : ¬ Foretold (stageFindings { name := "demo", stages := [stage] } stage) := by
    rw [Validation.foretold_stageFindings]
    rintro (⟨pattern, hpattern, flaw, hflaw⟩ | ⟨source, e, hsource, hmalformed⟩)
    · obtain ⟨g, hg⟩ := hreadable pattern hpattern
      cases hg.symm.trans hflaw
    · cases hsource
      cases hparse.symm.trans hmalformed
  have hpasses (o : DependencyOutcome) :
      Passes ⟨.push, "refs/heads/release/v1"⟩ stage [("build", o)] := by
    refine ⟨nofun, .inl rfl, .inr ⟨"release/*", List.mem_singleton_self _, _, hglob, ?_⟩, ?_⟩
    · decide +kernel
    · exact List.forall_mem_nil _
  refine ⟨hquiet, ?_, ?_⟩
  · rw [decide_of_unfiltered ((unfiltered_iff_passes hreadable).2 (hpasses _))]
    simp only [decideCondition, stage, hparse]
    rfl
  · let ctx : Context := ⟨⟨.push, "refs/heads/release/v1"⟩, [("build", .failed false)]⟩
    have hlint : (Expr.str "lint").eval ctx = .ok (.str "lint") := rfl
    have hbreaks : Expr.Breaks ctx (.call "outcome" [.str "lint"]) (.notADependency "lint") :=
      .outcome hlint (by decide)
    exact ((fails_iff_call_breaks hquiet).1 _ _ _).2
      ⟨hpasses _, _, _, _, _, rfl, hparse, .orRight rfl rfl (.eqLeft .here), hbreaks, rfl⟩

end Gate
end Conveyor
