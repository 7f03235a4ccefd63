import Conveyor.Proofs.Graph.Cycle

/-!
# Conveyor.Proofs.Pipeline.Validity

What the checks of a definition let pass.

Some of the checks look at the graph and some at one stage. An input with a producer that is no
stage passes the checks of its stage, as the graph is refused already, so the two kinds decide
validity only together.

* `Stage.Valid`, `Pipeline.Valid` — a definition that can run, without the checks.
* `Validation.Clean`              — findings without an error.
* `clean_stageFindings`           — which stages have no errors of their own.
* `validation_exact`              — the checks report no error exactly for valid definitions, and
                                    what the entry to a run answers for the others.
-/

namespace Conveyor

/-! ## Names -/

def IsLetter (c : Char) : Prop := 'A' ≤ c ∧ c ≤ 'Z' ∨ 'a' ≤ c ∧ c ≤ 'z'

def IsDigit (c : Char) : Prop := '0' ≤ c ∧ c ≤ '9'

/-- One character of the first class, and then any number of the second. -/
def Spelled (first later : Char → Prop) (name : String) : Prop :=
  ∃ c cs, name.toList = c :: cs ∧ first c ∧ ∀ d ∈ cs, later d

/-- `[A-Za-z0-9_][A-Za-z0-9_-]*` -/
def StageNamed : String → Prop :=
  Spelled (fun c => IsLetter c ∨ IsDigit c ∨ c = '_')
    fun c => IsLetter c ∨ IsDigit c ∨ c = '_' ∨ c = '-'

/-- `[A-Za-z_][A-Za-z0-9_]*` -/
def VariableNamed : String → Prop :=
  Spelled (fun c => IsLetter c ∨ c = '_') fun c => IsLetter c ∨ IsDigit c ∨ c = '_'

theorem isAlpha_iff {c : Char} : c.isAlpha = true ↔ IsLetter c := by
  have halpha : c.isAlpha = (c.isUpper || c.isLower) := rfl
  have hupper : c.isUpper = decide (c.val ≥ 'A'.val ∧ c.val ≤ 'Z'.val) := rfl
  have hlower : c.isLower = (decide (c.val ≥ 'a'.val) && decide (c.val ≤ 'z'.val)) := rfl
  simp [halpha, hupper, hlower, IsLetter, Char.le_def]

theorem isAlphanum_iff {c : Char} : c.isAlphanum = true ↔ IsLetter c ∨ IsDigit c := by
  simp [Char.isAlphanum, isAlpha_iff, Char.isDigit, IsDigit, Char.le_def]

theorem isStageName_iff {name : String} : isStageName name = true ↔ StageNamed name := by
  rw [isStageName, StageNamed, Spelled]
  cases name.toList with
  | nil => simp
  | cons c cs => simp [isAlphanum_iff, or_assoc]

theorem isVariableName_iff {name : String} : isVariableName name = true ↔ VariableNamed name := by
  rw [isVariableName, VariableNamed, Spelled]
  cases name.toList with
  | nil => simp
  | cons c cs => simp [isAlpha_iff, isAlphanum_iff, or_assoc]

/-! ## Valid definitions -/

/-- There is something to run: a script that is not blank, or a program with a name. -/
def Command.Runs : Command → Prop
  | .script text => ∃ c ∈ text.toList, isBlank c = false
  | .argv words => ∃ program arguments, words = program :: arguments ∧ program ≠ ""

theorem Command.isEmpty_iff {c : Command} : c.isEmpty = false ↔ c.Runs := by
  cases c with
  | script text => simp [isEmpty, Runs, List.all_eq_false]
  | argv words =>
    cases words with
    | nil => simp [isEmpty, Runs]
    | cons program rest => simp [isEmpty, Runs]

/-- The stage can run as a stage of the pipeline. -/
structure Stage.Valid (p : Pipeline) (s : Stage) : Prop where
  name : StageNamed s.name
  command : s.run.Runs
  timeout : s.timeoutSecs ≠ some 0
  inputNames : ∀ e ∈ s.inputs.entries, VariableNamed e.1
  secretNames : ∀ n ∈ s.secrets, VariableNamed n
  /-- Every input is bound to a key that its producer declares. -/
  reads : ∀ e ∈ s.inputs.entries, ∃ t ∈ p.stages, t.name = e.2.stage ∧ e.2.key ∈ t.outputs

structure Pipeline.Valid (p : Pipeline) : Prop where
  stages : p.stages ≠ []
  slots : p.settings.maxParallel ≠ some 0
  distinct : Graph.Distinct p.stages
  closed : Graph.Closed p.stages
  acyclic : ¬ Graph.Cyclic p.stages
  each : ∀ s ∈ p.stages, s.Valid p

/-! ## Findings without errors -/

namespace Validation

/-- There is no error among the findings. -/
def Clean (findings : List Finding) : Prop := ∀ text, .error text ∉ findings

theorem errors_eq_nil_iff {v : Validation} : v.errors = [] ↔ Clean v.findings := by
  rw [errors, List.filterMap_eq_nil_iff, Clean]
  constructor
  · intro h text htext
    cases h _ htext
  · intro h finding hfinding
    cases finding with
    | error text => exact absurd hfinding (h text)
    | warning text => rfl

theorem clean_append {l m : List Finding} : Clean (l ++ m) ↔ Clean l ∧ Clean m := by
  simp [Clean, not_or, forall_and]

theorem clean_flatMap {α : Type} {l : List α} {f : α → List Finding} :
    Clean (l.flatMap f) ↔ ∀ a ∈ l, Clean (f a) := by
  simp only [Clean, List.mem_flatMap, not_exists, not_and]
  exact ⟨fun h a ha text => h text a ha, fun h text a ha => h a ha text⟩

theorem clean_nil : Clean [] := nofun

theorem clean_warnings {l : List Finding} (h : ∀ f ∈ l, ∃ text, f = .warning text) : Clean l := by
  intro text htext
  obtain ⟨_, hwarning⟩ := h _ htext
  cases hwarning

theorem clean_cons_warning {text : String} {l : List Finding} :
    Clean (.warning text :: l) ↔ Clean l := by
  simp [Clean]

theorem clean_ite {c : Prop} [Decidable c] {text : String} :
    Clean (if c then [.error text] else []) ↔ ¬ c := by
  by_cases hc : c <;> simp [hc, Clean]

theorem clean_unless {c : Prop} [Decidable c] {text : String} :
    Clean (if c then [] else [.error text]) ↔ c := by
  by_cases hc : c <;> simp [hc, Clean]

/-! ## Stages without errors -/

theorem clean_inputFindings {p : Pipeline} {s : Stage} {name : String} {r : OutputRef} :
    Clean (inputFindings p s name r) ↔ VariableNamed name ∧
      ∀ producer, p.stage? r.stage = some producer → r.key ∈ producer.outputs := by
  have hwarning {c : Prop} [Decidable c] {text : String} :
      Clean (if c then [] else [.warning text]) := by
    refine clean_warnings fun f hf => ?_
    split at hf
    · cases hf
    · exact ⟨text, List.mem_singleton.1 hf⟩
  rw [inputFindings]
  split
  · simp_all [clean_unless, isVariableName_iff]
  · simp_all [clean_append, clean_unless, isVariableName_iff]

theorem clean_repeatedOutputs {s : Stage} : ∀ (outputs seen : List String),
    Clean (repeatedOutputs s seen outputs)
  | [], _ => clean_nil
  | key :: rest, seen => by
    rw [repeatedOutputs]
    split
    · exact clean_cons_warning.2 (clean_repeatedOutputs rest _)
    · exact clean_repeatedOutputs rest _

theorem clean_secretFindings {s : Stage} :
    Clean (secretFindings s) ↔ ∀ n ∈ s.secrets, VariableNamed n := by
  simp only [Clean, secretFindings, List.mem_filterMap, not_exists, not_and, ← isVariableName_iff]
  constructor
  · intro h n hn
    by_contra hname
    exact h _ n hn (if_neg hname)
  · intro h text n hn hfinding
    rw [if_pos (h n hn)] at hfinding
    cases hfinding

theorem clean_patternFindings {s : Stage} : Clean (patternFindings s) := by
  refine clean_warnings fun f hf => ?_
  obtain ⟨pattern, _, hf⟩ := List.mem_filterMap.1 hf
  split at hf <;> cases hf
  exact ⟨_, rfl⟩

theorem clean_conditionFindings {s : Stage} : Clean (conditionFindings s) := by
  refine clean_warnings fun f hf => ?_
  rw [conditionFindings] at hf
  split at hf
  · cases hf
  · split at hf
    · cases hf
    · exact ⟨_, List.mem_singleton.1 hf⟩

theorem clean_policyFindings {s : Stage} : Clean (policyFindings s) := by
  refine clean_warnings fun f hf => ?_
  rw [policyFindings] at hf
  split at hf
  · exact ⟨_, List.mem_singleton.1 hf⟩
  · cases hf

theorem clean_stageFindings {p : Pipeline} {s : Stage} : Clean (stageFindings p s) ↔
    StageNamed s.name ∧ s.run.Runs ∧ s.timeoutSecs ≠ some 0 ∧
      (∀ e ∈ s.inputs.entries, VariableNamed e.1 ∧
        ∀ producer, p.stage? e.2.stage = some producer → e.2.key ∈ producer.outputs) ∧
      ∀ n ∈ s.secrets, VariableNamed n := by
  simp only [stageFindings, clean_append, clean_unless, clean_ite, clean_flatMap,
    isStageName_iff, ← Command.isEmpty_iff, Bool.not_eq_true, clean_inputFindings,
    clean_repeatedOutputs, clean_secretFindings, clean_patternFindings, clean_conditionFindings,
    clean_policyFindings, and_true, and_assoc, ne_eq]

theorem clean_graphFindings {p : Pipeline} : Clean (graphFindings p) ↔ ∃ g, p.graph = .ok g := by
  rw [graphFindings]
  cases p.graph <;> simp [Clean]

theorem clean_ofPipeline {p : Pipeline} : Clean (ofPipeline p).findings ↔
    p.stages ≠ [] ∧ p.settings.maxParallel ≠ some 0 ∧ (∃ g, p.graph = .ok g) ∧
      ∀ s ∈ p.stages, Clean (stageFindings p s) := by
  simp only [ofPipeline, clean_append, clean_ite, clean_graphFindings, clean_flatMap, and_assoc,
    List.isEmpty_iff, ne_eq]

end Validation

/-! ## Validity -/

theorem Pipeline.stage?_eq_some_iff {p : Pipeline} (h : Graph.Distinct p.stages) {n : String}
    {t : Stage} : p.stage? n = some t ↔ t ∈ p.stages ∧ t.name = n := by
  constructor
  · intro ht
    exact ⟨List.mem_of_find?_eq_some ht, by simpa using List.find?_some ht⟩
  · rintro ⟨ht, rfl⟩
    cases hfound : p.stage? t.name with
    | none => exact absurd (List.find?_eq_none.1 hfound t ht) (by simp)
    | some t' =>
      have hname : t'.name = t.name := by simpa using List.find?_some hfound
      rw [List.inj_on_of_nodup_map h (List.mem_of_find?_eq_some hfound) ht hname]

namespace Validation

/-- What a stage reads is declared, said of the first stage with the name of the producer. -/
theorem reads_iff {p : Pipeline} (hdistinct : Graph.Distinct p.stages)
    (hclosed : Graph.Closed p.stages) {s : Stage} (hs : s ∈ p.stages) {e : String × OutputRef}
    (he : e ∈ s.inputs.entries) :
    (∀ producer, p.stage? e.2.stage = some producer → e.2.key ∈ producer.outputs) ↔
      ∃ t ∈ p.stages, t.name = e.2.stage ∧ e.2.key ∈ t.outputs := by
  obtain ⟨t, ht, hname⟩ := List.mem_map.1 (hclosed s hs e.2.stage (.inr ⟨e, he, rfl⟩))
  have hfound (u : Stage) : p.stage? e.2.stage = some u ↔ u ∈ p.stages ∧ u.name = e.2.stage :=
    Pipeline.stage?_eq_some_iff hdistinct
  constructor
  · intro h
    exact ⟨t, ht, hname, h t ((hfound t).2 ⟨ht, hname⟩)⟩
  · rintro ⟨u, hu, huname, hkey⟩ producer hproducer
    have hsame := ((hfound u).2 ⟨hu, huname⟩).symm.trans hproducer
    injection hsame with hsame
    exact hsame ▸ hkey

theorem clean_stage_iff {p : Pipeline} (hdistinct : Graph.Distinct p.stages)
    (hclosed : Graph.Closed p.stages) {s : Stage} (hs : s ∈ p.stages) :
    Clean (stageFindings p s) ↔ s.Valid p := by
  rw [clean_stageFindings]
  constructor
  · rintro ⟨hname, hrun, htimeout, hinputs, hsecrets⟩
    exact ⟨hname, hrun, htimeout, fun e he => (hinputs e he).1, hsecrets,
      fun e he => (reads_iff hdistinct hclosed hs he).1 (hinputs e he).2⟩
  · intro h
    exact ⟨h.name, h.command, h.timeout,
      fun e he => ⟨h.inputNames e he, (reads_iff hdistinct hclosed hs he).2 (h.reads e he)⟩,
      h.secretNames⟩

theorem clean_iff_valid {p : Pipeline} : Clean (ofPipeline p).findings ↔ p.Valid := by
  rw [clean_ofPipeline, Pipeline.graph, Graph.ofStages_isOk_iff]
  constructor
  · rintro ⟨hstages, hslots, ⟨hdistinct, hclosed, hacyclic⟩, heach⟩
    exact ⟨hstages, hslots, hdistinct, hclosed, hacyclic,
      fun s hs => (clean_stage_iff hdistinct hclosed hs).1 (heach s hs)⟩
  · intro h
    exact ⟨h.stages, h.slots, ⟨h.distinct, h.closed, h.acyclic⟩,
      fun s hs => (clean_stage_iff h.distinct h.closed hs).2 (h.each s hs)⟩

theorem moreErrors_isSome_iff {count : Nat} : (moreErrors count).isSome = true ↔ 0 < count := by
  rw [moreErrors]
  split <;> simp <;> omega

end Validation

theorem Pipeline.errors_of_ensureValid {p : Pipeline} {g : Graph} (h : p.ensureValid = .ok g) :
    (Validation.ofPipeline p).errors = [] := by
  rw [ensureValid] at h
  split at h
  · cases h
  · split at h
    · assumption
    · cases h

theorem Pipeline.valid_of_ensureValid {p : Pipeline} {g : Graph} (h : p.ensureValid = .ok g) :
    p.Valid :=
  Validation.clean_iff_valid.1 (Validation.errors_eq_nil_iff.1 (errors_of_ensureValid h))

/-- The checks of a definition report no error exactly if it is valid, and exactly then it may
run. If it has no graph, the error of the graph is the answer; if only checks of its stages or
settings fail, the first of their errors is the reason, with a hint if there are more. -/
theorem Pipeline.validation_exact (p : Pipeline) :
    ((Validation.ofPipeline p).errors = [] ↔ p.Valid) ∧
    ((∃ g, p.ensureValid = .ok g) ↔ (Validation.ofPipeline p).errors = []) ∧
    (∀ e, p.graph = .error e → p.ensureValid = .error e) ∧
    ∀ g reason more, p.graph = .ok g → (Validation.ofPipeline p).errors = reason :: more →
      ∃ help, p.ensureValid = .error (.invalidPipeline reason help) ∧
        (help.isSome ↔ 1 < (Validation.ofPipeline p).errors.length) := by
  refine ⟨Validation.errors_eq_nil_iff.trans Validation.clean_iff_valid, ?_, ?_, ?_⟩
  · constructor
    · rintro ⟨g, h⟩
      exact errors_of_ensureValid h
    · intro h
      obtain ⟨_, _, ⟨g, hg⟩, _⟩ := Validation.clean_ofPipeline.1 (Validation.errors_eq_nil_iff.1 h)
      exact ⟨g, by simp only [ensureValid, hg, h]⟩
  · intro e h
    rw [ensureValid, h]
  · intro g reason more hg herrors
    refine ⟨Validation.moreErrors more.length, ?_, ?_⟩
    · simp only [ensureValid, hg, herrors]
    · rw [Validation.moreErrors_isSome_iff, herrors, List.length_cons]
      omega

end Conveyor
