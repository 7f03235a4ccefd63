import Conveyor.Pipeline.Schema
import Mathlib.Data.Option.Basic

/-!
# Conveyor.Proofs.Pipeline.Translation

Definitions in documents that give the same answers.

The schema asks a document for texts, counts, lists and so on, and sees nothing else of it. So if
a document is translated, and the translation of a value answers each demand as the value did, the
same definition is read from it. And where only the value under the name differs, only the name of
the definition does.

* `Source.Translation`          — a map between documents that keeps all answers.
* `Source.Translation.pipeline` — the same definition is read from a translation.
* `Schema.byName_second`        — the value under a name, among the fields of a record.
* `Pipeline.decode?_named`      — the same definition under another name.
-/

namespace Conveyor

namespace Schema

section Lists

variable {δ ε α : Type} {φ : δ → ε}

theorem mapAll_map (f : ε → Option α) (l : List δ) :
    mapAll f (l.map φ) = mapAll (fun d => f (φ d)) l := by
  induction l with
  | nil => rfl
  | cons d l ih => simp only [List.map_cons, mapAll, ih]

theorem entriesOf_map (f : ε → Option α) (l : List (String × δ)) :
    entriesOf f (l.map (Prod.map id φ)) = entriesOf (fun d => f (φ d)) l := by
  induction l with
  | nil => rfl
  | cons e l ih => simp only [List.map_cons, Prod.map, id, entriesOf, ih]

theorem byName_map (fields : List (String × δ)) (names : List String) :
    byName (fields.map (Prod.map id φ)) names =
      (byName fields names).map (List.map (Option.map φ)) := by
  induction names with
  | nil => rfl
  | cons n names ih =>
    have hfilter : (fields.map (Prod.map id φ)).filter (·.1 = n) =
        (fields.filter (·.1 = n)).map (Prod.map id φ) := by
      rw [List.filter_map]
      rfl
    rw [byName, byName, hfilter, ih]
    generalize fields.filter (·.1 = n) = found
    rcases found with - | ⟨d, - | ⟨d', more⟩⟩
    · simp [Function.comp_def]
    · simp [Function.comp_def]
    · rfl

theorem byPosition_map (items : List δ) (names : List String) :
    byPosition (items.map φ) names = (byPosition items names).map (Option.map φ) := by
  induction names generalizing items with
  | nil => cases items <;> rfl
  | cons n names ih =>
    cases items with
    | nil => simpa [byPosition] using ih []
    | cons d items => simp [byPosition, ih items]

@[simp] theorem required_map (f : ε → Option α) (d : Option δ) :
    required f (d.map φ) = required (fun d => f (φ d)) d := by
  cases d <;> rfl

@[simp] theorem withDefault_map (a : α) (f : ε → Option α) (d : Option δ) :
    withDefault a f (d.map φ) = withDefault a (fun d => f (φ d)) d := by
  cases d <;> rfl

end Lists

end Schema

/-! ## Translations -/

variable {δ ε α : Type} [Source δ] [Source ε]

/-- Each demand is answered as before, with values that are translated too. -/
structure Source.Translation (φ : δ → ε) : Prop where
  text : ∀ d, text? (φ d) = text? d
  flag : ∀ d, flag? (φ d) = flag? d
  count : ∀ d, count? (φ d) = count? d
  optional : ∀ d, optional? (φ d) = (optional? d).map (Option.map φ)
  list : ∀ d, list? (φ d) = (list? d).map (List.map φ)
  table : ∀ d, table? (φ d) = (table? d).map (List.map (Prod.map id φ))
  record : ∀ n d, record? n (φ d) =
    (record? n d).map (Sum.map (List.map (Prod.map id φ)) (List.map φ))
  variant : ∀ d, variant? (φ d) = variant? d
  command : ∀ d, command? (φ d) = command? d

namespace Source.Translation

open Schema

variable {φ : δ → ε} (hφ : Source.Translation φ)
include hφ

theorem fields? (names : List String) (d : δ) :
    Schema.fields? names (φ d) = (Schema.fields? names d).map (List.map (Option.map φ)) := by
  rw [Schema.fields?, Schema.fields?, hφ.record]
  rcases Source.record? names.length d with - | fields | items
  · rfl
  · exact byName_map fields names
  · exact congrArg some (byPosition_map items names)

theorem optionalField (f : ε → Option α) (d : Option δ) :
    Schema.optionalField f (d.map φ) = Schema.optionalField (fun d => f (φ d)) d := by
  cases d with
  | none => rfl
  | some d =>
    rw [Option.map_some, Schema.optionalField, Schema.optionalField, hφ.optional]
    rcases Source.optional? d with - | - | d <;> rfl

theorem listOf (f : ε → Option α) (d : δ) :
    Schema.listOf f (φ d) = Schema.listOf (fun d => f (φ d)) d := by
  rw [Schema.listOf, Schema.listOf, hφ.list, Option.bind_map]
  exact congrArg _ (funext (mapAll_map f))

theorem dictOf (f : ε → Option α) (d : δ) :
    Schema.dictOf f (φ d) = Schema.dictOf (fun d => f (φ d)) d := by
  rw [Schema.dictOf, Schema.dictOf, hφ.table]
  cases Source.table? d with
  | none => rfl
  | some entries => exact congrArg (Option.map Dict.ofList) (entriesOf_map f entries)

theorem texts (d : δ) : Schema.texts (φ d) = Schema.texts d := by
  rw [Schema.texts, Schema.texts, hφ.listOf]
  exact congrArg (Schema.listOf · d) (funext hφ.text)

theorem outputRef (d : δ) : Schema.outputRef (φ d) = Schema.outputRef d := by
  rw [Schema.outputRef, Schema.outputRef, hφ.text]

theorem eventKind (d : δ) : Schema.eventKind (φ d) = Schema.eventKind d := by
  rw [Schema.eventKind, Schema.eventKind, hφ.variant]

theorem policy (d : δ) : Schema.policy (φ d) = Schema.policy d := by
  rw [Schema.policy, Schema.policy, hφ.variant]

theorem settings (d : δ) : Settings.decode? (φ d) = Settings.decode? d := by
  rw [Settings.decode?, hφ.fields?, Settings.decode?]
  obtain - | fields := Schema.fields? Settings.fieldNames d
  · rfl
  iterate 5
    obtain - | ⟨_, fields⟩ := fields
    · rfl
  obtain - | ⟨_, _⟩ := fields
  · simp only [Option.map_some, List.map_cons, List.map_nil, withDefault_map, hφ.optionalField,
      hφ.text, hφ.flag, hφ.count]
  · rfl

theorem conditions (d : δ) : Conditions.decode? (φ d) = Conditions.decode? d := by
  rw [Conditions.decode?, hφ.fields?, Conditions.decode?]
  obtain - | fields := Schema.fields? Conditions.fieldNames d
  · rfl
  iterate 4
    obtain - | ⟨_, fields⟩ := fields
    · rfl
  obtain - | ⟨_, _⟩ := fields
  · simp only [Option.map_some, List.map_cons, List.map_nil, withDefault_map, hφ.optionalField,
      hφ.listOf, hφ.texts, hφ.text, hφ.eventKind]
  · rfl

theorem stage (d : δ) : Stage.decode? (φ d) = Stage.decode? d := by
  rw [Stage.decode?, hφ.fields?, Stage.decode?]
  obtain - | fields := Schema.fields? Stage.fieldNames d
  · rfl
  iterate 15
    obtain - | ⟨_, fields⟩ := fields
    · rfl
  obtain - | ⟨_, _⟩ := fields
  · simp only [Option.map_some, List.map_cons, List.map_nil, required_map, withDefault_map,
      hφ.optionalField, hφ.dictOf, hφ.texts, hφ.text, hφ.flag, hφ.count, hφ.outputRef, hφ.policy,
      hφ.command, hφ.conditions]
  · rfl

theorem pipeline (d : δ) : Pipeline.decode? (φ d) = Pipeline.decode? d := by
  rw [Pipeline.decode?, hφ.fields?, Pipeline.decode?]
  obtain - | fields := Schema.fields? Pipeline.fieldNames d
  · rfl
  iterate 6
    obtain - | ⟨_, fields⟩ := fields
    · rfl
  obtain - | ⟨_, _⟩ := fields
  · simp only [Option.map_some, List.map_cons, List.map_nil, required_map, withDefault_map,
      hφ.optionalField, hφ.listOf, hφ.dictOf, hφ.text, hφ.settings, hφ.stage]
  · rfl

end Source.Translation

/-! ## The name of a definition -/

namespace Schema

variable {δ : Type} {pre more : List (String × δ)} {k : String}

theorem byName_skip {names : List String} (hk : k ∉ names) (x : δ) :
    byName (pre ++ (k, x) :: more) names = byName (pre ++ more) names := by
  induction names with
  | nil => rfl
  | cons n names ih =>
    rw [List.mem_cons, not_or] at hk
    have hfilter : (pre ++ (k, x) :: more).filter (·.1 = n) = (pre ++ more).filter (·.1 = n) := by
      rw [List.filter_append, List.filter_append, List.filter_cons_of_neg (by simpa using hk.1)]
    rw [byName, byName, hfilter, ih hk.2]

/-- The value under a name that is asked for second is answered second. Whether it is answered
does not depend on it. -/
theorem byName_second {n : String} {names : List String} (hn : k ≠ n) (hk : k ∉ names) :
    ∃ others : Option (Option δ × List (Option δ)), ∀ x,
      byName (pre ++ (k, x) :: more) (n :: k :: names) =
        others.map fun r => r.1 :: some x :: r.2 := by
  have hfirst : ∀ x, (pre ++ (k, x) :: more).filter (·.1 = n) = (pre ++ more).filter (·.1 = n) := by
    intro x
    rw [List.filter_append, List.filter_append, List.filter_cons_of_neg (by simpa using hn)]
  have hsecond : ∀ x, (pre ++ (k, x) :: more).filter (·.1 = k) =
      pre.filter (·.1 = k) ++ (k, x) :: more.filter (·.1 = k) := by
    intro x
    rw [List.filter_append, List.filter_cons_of_pos (by simp)]
  simp only [byName, hfirst, hsecond, byName_skip hk]
  generalize (pre ++ more).filter (·.1 = n) = found
  generalize byName (pre ++ more) names = rest
  generalize pre.filter (·.1 = k) = before
  generalize more.filter (·.1 = k) = after
  rcases before with - | ⟨b, - | ⟨b', before⟩⟩
  · rcases after with - | ⟨a, after⟩
    · rcases found with - | ⟨d, - | ⟨d', found⟩⟩
      · exact ⟨rest.map fun rest => (none, rest), fun x => by simp [Function.comp_def]⟩
      · exact ⟨rest.map fun rest => (some d.2, rest), fun x => by simp [Function.comp_def]⟩
      · exact ⟨none, fun x => rfl⟩
    · -- the name stands once more behind the value, so the record is refused
      exact ⟨none, fun x => by rcases found with - | ⟨d, - | ⟨d', found⟩⟩ <;> rfl⟩
  · exact ⟨none, fun x => by rcases found with - | ⟨d, - | ⟨d', found⟩⟩ <;> rfl⟩
  · exact ⟨none, fun x => by rcases found with - | ⟨d, - | ⟨d', found⟩⟩ <;> rfl⟩

end Schema

/-- A definition has the name that is given in its record, and else does not depend on it. -/
theorem Pipeline.decode?_named {δ : Type} [Source δ] {pre more : List (String × δ)} {d d' x x' : δ}
    {name name' : String}
    (hd : Source.record? fieldNames.length d = some (.inl (pre ++ ("name", x) :: more)))
    (hd' : Source.record? fieldNames.length d' = some (.inl (pre ++ ("name", x') :: more)))
    (hx : Source.text? x = some name) (hx' : Source.text? x' = some name') :
    decode? d' = (decode? d).map fun p => { p with name := name' } := by
  obtain ⟨others, hothers⟩ : ∃ others : Option (Option δ × List (Option δ)), ∀ x,
      Schema.byName (pre ++ ("name", x) :: more) fieldNames =
        others.map fun r => r.1 :: some x :: r.2 :=
    Schema.byName_second (by decide) (by decide)
  have hfields : Schema.fields? fieldNames d =
      others.map fun r => r.1 :: some x :: r.2 := by
    rw [Schema.fields?, hd]
    exact hothers x
  have hfields' : Schema.fields? fieldNames d' =
      others.map fun r => r.1 :: some x' :: r.2 := by
    rw [Schema.fields?, hd']
    exact hothers x'
  rw [decode?, hfields', decode?, hfields]
  obtain - | ⟨version, fields⟩ := others
  · rfl
  iterate 4
    obtain - | ⟨_, fields⟩ := fields
    · rfl
  obtain - | ⟨_, _⟩ := fields
  · simp [hx, hx', Schema.required, Option.map_bind]
  · rfl

end Conveyor
