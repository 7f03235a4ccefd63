import Conveyor.Proofs.Condition.Rendering
import Conveyor.Proofs.Gate.Foresight

/-!
# Conveyor.Proofs.Gate.Admission

Which stages a gate admits.

A gate admits a stage if no filter stops it and its condition is met. It reads the globs of the
branches only up to the first that matches. So a glob that cannot be read does no harm behind one
that matches, and a stage of which a warning says that it will fail may still be admitted; this is
the one way in which it may.

That a stage propagates failures is a filter of its own, and could as well be a part of its
condition: `success()` asks the same of the dependencies. The two are put together as texts, and
the parentheses around the condition of the stage keep it one operand.

* `Glob.Picks`                  — a list of globs matches, and is read so far.
* `Gate.Admits`                 — what admits a stage, said without the checks of a gate.
* `Gate.decide_eq_allow_iff`    — a gate admits exactly these stages.
* `Gate.foretold_admitted_iff`  — when a stage is admitted although its failure was foretold.
* `Stage.guarded`               — a stage with its policy in its condition.
* `Condition.parse_guarded`     — the tree of the condition of such a stage.
* `Gate.guarded_admitted_iff`   — it is admitted exactly if the stage is.
-/

namespace Conveyor

/-! ## Lists of globs, some of which cannot be read -/

namespace Glob

/-- The text is a glob that does not match the name. -/
def Misses (pattern name : String) : Prop :=
  ∃ g, compile pattern = .ok g ∧ g.accepts name = false

/-- One of the globs matches the name. Those before it can be read and do not match. -/
def Picks (patterns : List String) (name : String) : Prop :=
  ∃ before hit after, patterns = before ++ hit :: after ∧ (∀ p ∈ before, Misses p name) ∧
    Covers hit name

variable {pattern name : String} {patterns : List String} {flaw : Flaw}

theorem Misses.readable (h : Misses pattern name) : compile pattern ≠ .error flaw := by
  obtain ⟨g, hg, _⟩ := h
  simp [hg]

theorem Covers.readable (h : Covers pattern name) : compile pattern ≠ .error flaw := by
  obtain ⟨g, hg, _⟩ := h
  simp [hg]

theorem not_picks_nil : ¬ Picks [] name := by simp [Picks]

theorem picks_cons : Picks (pattern :: patterns) name ↔
    Covers pattern name ∨ Misses pattern name ∧ Picks patterns name := by
  constructor
  · rintro ⟨before, hit, after, hsplit, hbefore, hhit⟩
    cases before with
    | nil =>
      cases hsplit
      exact .inl hhit
    | cons first before =>
      cases hsplit
      obtain ⟨hfirst, hbefore⟩ := List.forall_mem_cons.1 hbefore
      exact .inr ⟨hfirst, before, hit, after, rfl, hbefore, hhit⟩
  · rintro (hhit | ⟨hmiss, before, hit, after, rfl, hbefore, hhit⟩)
    · exact ⟨[], pattern, patterns, rfl, List.forall_mem_nil _, hhit⟩
    · exact ⟨pattern :: before, hit, after, rfl, List.forall_mem_cons.2 ⟨hmiss, hbefore⟩, hhit⟩

end Glob

section
variable {branch : String} {patterns : List String}

/-- The list answers with the first glob that matches, whatever stands behind it. -/
theorem matchesAny_picks_iff : matchesAny branch patterns = .ok true ↔
    Glob.Picks patterns branch := by
  induction patterns with
  | nil => simp [matchesAny, Glob.not_picks_nil]
  | cons p rest ih =>
    rw [Glob.picks_cons, ← ih, matchesAny, Glob.Covers, Glob.Misses]
    cases hp : Glob.compile p with
    | error flaw => simp
    | ok g => by_cases haccepts : g.accepts branch = true <;> simp [haccepts]

theorem matchesAny_misses_iff : matchesAny branch patterns = .ok false ↔
    ∀ p ∈ patterns, Glob.Misses p branch := by
  induction patterns with
  | nil => simp [matchesAny]
  | cons p rest ih =>
    rw [List.forall_mem_cons, ← ih, matchesAny, Glob.Misses]
    cases hp : Glob.compile p with
    | error flaw => simp
    | ok g => by_cases haccepts : g.accepts branch = true <;> simp [haccepts]

end

/-! ## Stages that are admitted -/

namespace Gate

open Condition (parse)
open Validation (Foretold stageFindings)

variable {t : Trigger} {stage : Stage} {deps : Dependencies}

/-- No filter of a stage stops it, and its condition is met. -/
structure Admits (t : Trigger) (stage : Stage) (deps : Dependencies) : Prop where
  dependencies : stage.onFailure = .propagate → ∀ d ∈ deps, d.2.satisfies = true
  event : stage.conditions.events = [] ∨ t.event ∈ stage.conditions.events
  wanted : stage.conditions.branches = [] ∨ Glob.Picks stage.conditions.branches t.branch
  kept : ∀ pattern ∈ stage.conditions.branchesIgnore, Glob.Misses pattern t.branch
  met : ∀ source, stage.conditions.expression = some source →
    ∃ expr, parse source = .ok expr ∧ expr.evaluate ⟨t, deps⟩ = .ok true

theorem Admits.unfiltered (h : Admits t stage deps) : Unfiltered t stage deps :=
  ⟨⟨stoppedBy?_eq_none_iff.2 h.dependencies, h.event⟩, h.wanted.imp id matchesAny_picks_iff.2,
    matchesAny_misses_iff.2 h.kept⟩

theorem Unfiltered.admits (h : Unfiltered t stage deps)
    (hmet : ∀ source, stage.conditions.expression = some source →
      ∃ expr, parse source = .ok expr ∧ expr.evaluate ⟨t, deps⟩ = .ok true) :
    Admits t stage deps :=
  ⟨stoppedBy?_eq_none_iff.1 h.dependencies, h.event, h.wanted.imp id matchesAny_picks_iff.1,
    matchesAny_misses_iff.1 h.kept, hmet⟩

theorem decide_eq_allow_iff : decide t stage deps = .ok .allow ↔ Admits t stage deps := by
  constructor
  · intro hallow
    have hanswers : Answers t stage deps (.ok .allow) := hallow ▸ answers
    cases hanswers with
    | unconditional hfree hnone => exact hfree.admits (by simp [hnone])
    | met hfree hsource hparse hmet =>
      refine hfree.admits fun source hsource' => ?_
      cases hsource.symm.trans hsource'
      exact ⟨_, hparse, hmet⟩
  · intro hadmits
    rw [decide_of_unfiltered hadmits.unfiltered, decideCondition]
    cases hsource : stage.conditions.expression with
    | none => rfl
    | some source =>
      obtain ⟨expr, hparse, hmet⟩ := hadmits.met source hsource
      simp only [hparse, hmet]

/-! ## Stages that were said to fail -/

/-- What cannot be read of a stage that is admitted is a glob behind the first that matches. -/
theorem Admits.unread {p : Pipeline} (h : Admits t stage deps)
    (hforetold : Foretold (stageFindings p stage)) :
    ∃ before hit after, stage.conditions.branches = before ++ hit :: after ∧
      Glob.Covers hit t.branch ∧ ∃ pattern ∈ after, ∃ flaw, Glob.compile pattern = .error flaw := by
  rcases Validation.foretold_stageFindings.1 hforetold with
    ⟨pattern, hpattern, flaw, hflaw⟩ | ⟨source, e, hsource, hmalformed⟩
  · rcases List.mem_append.1 hpattern with hwanted | hignored
    · obtain ⟨before, hit, after, hsplit, hbefore, hhit⟩ :=
        h.wanted.resolve_left (List.ne_nil_of_mem hwanted)
      refine ⟨before, hit, after, hsplit, hhit, pattern, ?_, flaw, hflaw⟩
      rw [hsplit, List.mem_append, List.mem_cons] at hwanted
      rcases hwanted with hmem | rfl | hmem
      · exact absurd hflaw (hbefore pattern hmem).readable
      · exact absurd hflaw hhit.readable
      · exact hmem
    · exact absurd hflaw (h.kept pattern hignored).readable
  · obtain ⟨expr, hparse, _⟩ := h.met source hsource
    cases hmalformed.symm.trans hparse

/-- If the checks foretell that the gate of a stage fails, the stage is still admitted exactly if
no filter stops it, its condition is met, and the globs that cannot be read stand behind one that
matches the branch of the run. So it is never admitted if what cannot be read is its condition or a
glob of the branches that it ignores. -/
theorem foretold_admitted_iff {p : Pipeline} (h : Foretold (stageFindings p stage)) :
    (∀ t deps, decide t stage deps = .ok .allow ↔ Admits t stage deps ∧
      ∃ before hit after, stage.conditions.branches = before ++ hit :: after ∧
        Glob.Covers hit t.branch ∧
        ∃ pattern ∈ after, ∃ flaw, Glob.compile pattern = .error flaw) ∧
    ((∃ source e, stage.conditions.expression = some source ∧ parse source = .error e) ∨
      (∃ pattern ∈ stage.conditions.branchesIgnore,
        ∃ flaw, Glob.compile pattern = .error flaw) →
      ∀ t deps, decide t stage deps ≠ .ok .allow) := by
  constructor
  · intro t deps
    rw [decide_eq_allow_iff]
    exact ⟨fun hadmits => ⟨hadmits, hadmits.unread h⟩, And.left⟩
  · intro hbroken t deps hallow
    have hadmits := decide_eq_allow_iff.1 hallow
    rcases hbroken with ⟨source, e, hsource, hmalformed⟩ | ⟨pattern, hpattern, flaw, hflaw⟩
    · obtain ⟨expr, hparse, _⟩ := hadmits.met source hsource
      cases hmalformed.symm.trans hparse
    · exact (hadmits.kept pattern hpattern).readable hflaw

/-- The second glob has three stars. On the first branch nobody looks at it. -/
theorem foretold_admitted_iff_main :
    let stage : Stage := {
      name := "publish"
      run := .script "make publish"
      conditions := { branches := ["main", "release/***"] } }
    Foretold (stageFindings { name := "demo", stages := [stage] } stage) ∧
    decide ⟨.push, "main"⟩ stage [] = .ok .allow := by
  intro stage
  have hflaw : Glob.compile "release/***" = .error .wildcards := by decide +kernel
  have hglob : Glob.compile "main" =
      .ok ⟨"main", [.literal 'm', .literal 'a', .literal 'i', .literal 'n']⟩ := by decide +kernel
  have hforetold : Foretold (stageFindings { name := "demo", stages := [stage] } stage) :=
    Validation.foretold_stageFindings.2
      (.inl ⟨"release/***", List.mem_cons_of_mem _ (List.mem_singleton_self _), _, hflaw⟩)
  have hmain : Glob.Covers "main" (Trigger.branch ⟨.push, "main"⟩) :=
    ⟨_, hglob, by decide +kernel⟩
  have hadmits : Admits ⟨.push, "main"⟩ stage [] :=
    ⟨nofun, .inl rfl, .inr ⟨[], "main", _, rfl, List.forall_mem_nil _, hmain⟩,
      List.forall_mem_nil _, nofun⟩
  exact ⟨hforetold, ((foretold_admitted_iff hforetold).1 _ _).2
    ⟨hadmits, [], "main", _, rfl, hmain, _, List.mem_singleton_self _, _, hflaw⟩⟩

end Gate

/-! ## The policy of a stage as a part of its condition -/

/-- The text of a condition that asks for the success of the dependencies first. -/
def guardedText : Option String → String
  | none => "success()"
  | some source => "success() && (" ++ source ++ ")"

/-- The stage that runs whatever its dependencies came to, unless its condition asks for their
success. -/
def Stage.guarded (stage : Stage) : Stage := { stage with
  onFailure := .proceed
  conditions := { stage.conditions with
    expression := some (guardedText stage.conditions.expression) } }

namespace Condition

variable {source : String} {expr : Expr} {ctx : Context}

theorem spells_success {rest : List Char} {ts : List Token} (h : Spells rest ts) :
    Spells ("success()".toList ++ rest) (.word "success" :: .opening :: .closing :: ts) := by
  have hletters : "uccess".toList.all isWordPart = true := by decide
  have hword : Lexeme "success".toList (.word "success") :=
    Lexeme.word (show isWordStart 's' = true from rfl) (List.all_eq_true.1 hletters) (by decide)
      (by decide)
  have htext : "success()".toList = "success".toList ++ (['('] ++ [')']) := by decide
  rw [htext, List.append_assoc, List.append_assoc]
  exact .cons hword (.cons .opening (.cons .closing h))

theorem wellNamed_success : (Expr.call "success" []).WellNamed := ⟨⟨.success, rfl, rfl⟩, trivial⟩

theorem parse_success : parse "success()" = .ok (.call "success" []) :=
  parse_eq_ok_iff.2 ⟨_, spells_success (.done nofun),
    Derives.callNone.loosen (Nat.zero_le _), wellNamed_success⟩

/-- A condition in parentheses is one operand, whatever it is. -/
theorem parse_guarded (h : parse source = .ok expr) :
    parse (guardedText (some source)) = .ok (.and (.call "success" []) expr) := by
  obtain ⟨ts, hspells, hderives, hnamed⟩ := parse_eq_ok_iff.1 h
  have hoperand : Spells (' ' :: (['&', '&'] ++ ' ' :: (['('] ++ (source.toList ++ [')']))))
      (.both :: .opening :: (ts ++ [.closing])) :=
    .blank rfl (.cons .both (.blank rfl (.cons .opening (hspells.concat .closing))))
  have htext : (guardedText (some source)).toList = "success()".toList ++
      ' ' :: (['&', '&'] ++ ' ' :: (['('] ++ (source.toList ++ [')']))) := by
    simp [guardedText]
  have htree : Derives .conjunction
      ([.word "success", .opening, .closing] ++ .both :: (.opening :: (ts ++ [.closing])))
      (.and (.call "success" []) expr) :=
    Derives.and (Derives.callNone.loosen (by decide)) (hderives.group.loosen (by decide))
  refine parse_eq_ok_iff.2 ⟨_, ?_, htree.single_conjunction, trivial, wellNamed_success, hnamed⟩
  rw [htext]
  exact spells_success hoperand

theorem eval_success : (Expr.call "success" []).eval ctx =
    .ok (.bool (ctx.dependencies.all fun d => d.2.satisfies)) := by
  simp [Expr.eval, Expr.evalAll, Function.ofName?, Function.arity, Function.apply]

theorem evaluate_success : (Expr.call "success" []).evaluate ctx =
    .ok (ctx.dependencies.all fun d => d.2.satisfies) := by
  rw [Expr.evaluate, eval_success]
  rfl

theorem evaluate_guarded : (Expr.and (.call "success" []) expr).evaluate ctx =
    if ctx.dependencies.all fun d => d.2.satisfies then expr.evaluate ctx else .ok false := by
  rw [Expr.evaluate, Expr.eval, eval_success, Expr.evaluate]
  by_cases hall : (ctx.dependencies.all fun d => d.2.satisfies) = true
  · simp only [hall, Value.truthy, if_true]
    cases expr.eval ctx <;> rfl
  · simp only [hall, Value.truthy, if_false, Bool.false_eq_true]

end Condition

namespace Gate

open Condition (parse)

variable {t : Trigger} {stage : Stage} {deps : Dependencies}

def Parsable (stage : Stage) : Prop :=
  ∀ source, stage.conditions.expression = some source → ∃ expr, parse source = .ok expr

theorem decideCondition_guarded (h : Parsable stage) :
    decideCondition t stage.guarded deps =
      if deps.all fun d => d.2.satisfies then decideCondition t stage deps
      else .ok (.skip .conditionFalse) := by
  have hguarded : stage.guarded.conditions.expression =
      some (guardedText stage.conditions.expression) := rfl
  rw [decideCondition, decideCondition, hguarded]
  cases hsource : stage.conditions.expression with
  | none =>
    simp only [guardedText, Condition.parse_success, Condition.evaluate_success]
    cases deps.all fun d => d.2.satisfies <;> rfl
  | some source =>
    obtain ⟨expr, hparse⟩ := h source hsource
    simp only [Condition.parse_guarded hparse, hparse, Condition.evaluate_guarded]
    cases deps.all fun d => d.2.satisfies <;> rfl

theorem decide_guarded (h : Parsable stage) (hdeps : ∀ d ∈ deps, d.2.satisfies = true) :
    decide t stage.guarded deps = decide t stage deps := by
  have hfree : stoppedBy? stage deps = none := stoppedBy?_eq_none_iff.2 fun _ => hdeps
  have hguarded : stoppedBy? stage.guarded deps = none := stoppedBy?_eq_none_iff.2 nofun
  rw [decide, decide, hfree, hguarded, decideBranch, decideBranch, decideCondition_guarded h,
    if_pos (List.all_eq_true.2 hdeps)]
  rfl

theorem satisfied_of_guarded (h : Parsable stage)
    (hallow : decide t stage.guarded deps = .ok .allow) : ∀ d ∈ deps, d.2.satisfies = true := by
  have hfree := (decide_eq_allow_iff.1 hallow).unfiltered
  rw [decide_of_unfiltered hfree, decideCondition_guarded h] at hallow
  split at hallow
  · rename_i hall
    exact List.all_eq_true.1 hall
  · cases hallow

/-- A stage that propagates failures is admitted exactly if the stage is that runs whatever its
dependencies came to, and asks for their success in front of its own condition. After satisfied
dependencies both get the same answer of every kind, and otherwise neither is admitted. -/
theorem guarded_admitted_iff (hpolicy : stage.onFailure = .propagate) (h : Parsable stage)
    (t : Trigger) (deps : Dependencies) :
    (decide t stage deps = .ok .allow ↔ decide t stage.guarded deps = .ok .allow) ∧
    ((∀ d ∈ deps, d.2.satisfies = true) → decide t stage.guarded deps = decide t stage deps) := by
  refine ⟨⟨fun hallow => ?_, fun hallow => ?_⟩, decide_guarded h⟩
  · rwa [decide_guarded h ((decide_eq_allow_iff.1 hallow).dependencies hpolicy)]
  · rwa [← decide_guarded h (satisfied_of_guarded h hallow)]

/-- Without the parentheses the stage would run after any push, whatever came before it. -/
theorem guarded_admitted_iff_either :
    let stage : Stage := {
      name := "publish"
      run := .script "make publish"
      dependsOn := ["build", "audit"]
      conditions := { expression := some "event == 'manual' || event == 'push'" } }
    stage.guarded.conditions.expression =
      some "success() && (event == 'manual' || event == 'push')" ∧
    decide ⟨.push, "main"⟩ stage.guarded [("build", .succeeded), ("audit", .failed true)] =
      .ok .allow ∧
    decide ⟨.push, "main"⟩ stage.guarded [("build", .failed false), ("audit", .succeeded)] ≠
      .ok .allow := by
  intro stage
  have hparse : parse "event == 'manual' || event == 'push'" =
      .ok (.or (.eq (.fact "event") (.str "manual")) (.eq (.fact "event") (.str "push"))) := by
    have hscan : Condition.Token.scan "event == 'manual' || event == 'push'" =
        .ok [.word "event", .same, .str "manual", .either, .word "event", .same,
          .str "push"] := by decide +kernel
    simp only [parse, hscan]
    rfl
  have hparsable : Parsable stage := by
    rintro source ⟨⟩
    exact ⟨_, hparse⟩
  refine ⟨rfl, ?_, fun hallow => ?_⟩
  · refine ((guarded_admitted_iff rfl hparsable _ _).1).1 ?_
    simp only [decide, stoppedBy?, blocker?, decideBranch, decideCondition, stage, hparse]
    rfl
  · have hstage := ((guarded_admitted_iff rfl hparsable _ _).1).2 hallow
    exact absurd ((decide_eq_allow_iff.1 hstage).dependencies rfl _ List.mem_cons_self) (by decide)

end Gate
end Conveyor
