import Conveyor.Pipeline.File
import Conveyor.Proofs.Output.Markers
import Conveyor.Proofs.Pipeline.RoundTrip
import Mathlib.Data.List.DropRight

/-!
# Conveyor.Proofs.Pipeline.References

References to outputs that are read, written and read again.

A reference is refused if one of its two parts is empty, but this is asked before the parts are
trimmed. So a part of nothing but blanks gets through and is empty then, and the text of such a
reference is refused. All other references that are read are read back from their texts.

Every reference of a definition that a reader of any format gives was read from a text, so a
definition that was loaded can be written and loaded again exactly if it has no such reference.

* `OutputRef.Hollow`         — one of the two parts is empty.
* `Text.trim_trim`, `Text.trim_eq_empty_iff` — what trimming leaves.
* `OutputRef.parse_text_of_parse` — what is read of the text of a reference that was read.
* `Pipeline.referring_of_ofText` — the references of a definition that was loaded were read.
* `Pipeline.reload`          — what is read of the JSON text of a definition that was loaded.
* `references_stable`        — which references and definitions are read back, and which refused.
-/

namespace Conveyor

namespace Text

theorem trimRight_eq (s : List Char) : trimRight s = s.rdropWhile isBlank := rfl

theorem trimLeft_trimRight_trimLeft (s : List Char) :
    trimLeft (trimRight (trimLeft s)) = trimRight (trimLeft s) := by
  have hprefix : trimRight (trimLeft s) <+: trimLeft s := List.rdropWhile_prefix isBlank _
  cases hleft : trimRight (trimLeft s) with
  | nil => rfl
  | cons c rest =>
    rw [hleft] at hprefix
    obtain ⟨blanks, hsplit⟩ := hprefix
    have hc := List.head?_dropWhile_not isBlank s
    rw [← trimLeft, ← hsplit] at hc
    exact List.dropWhile_cons_of_neg (by simpa using hc)

theorem trim_trim (s : String) : trim (trim s) = trim s := by
  have hright : ∀ l, trimRight (trimRight l) = trimRight l :=
    List.rdropWhile_idempotent isBlank
  simp only [trim, String.toList_ofList, trimLeft_trimRight_trimLeft, hright]

theorem trim_eq_empty_iff {s : String} :
    trim s = "" ↔ ∀ c ∈ s.toList, isBlank c = true := by
  rw [trim, String.ofList_eq_empty_iff, trimRight_eq, List.rdropWhile_eq_nil_iff]
  constructor
  · intro h c hc
    by_cases hmem : c ∈ trimLeft s.toList
    · exact h c hmem
    · rw [← List.takeWhile_append_dropWhile (p := isBlank) (l := s.toList)] at hc
      exact List.mem_takeWhile_imp ((List.mem_append.1 hc).resolve_right hmem)
  · intro h c hc
    exact h c ((List.dropWhile_sublist _).subset hc)

end Text

/-! ## One reference -/

namespace OutputRef

variable {r : OutputRef} {s : String}

/-- One of the two parts is empty. -/
def Hollow (r : OutputRef) : Prop := r.stage = "" ∨ r.key = ""

/-- Both parts have a character, but one of them has only blanks. -/
def BlankPart (s : String) : Prop :=
  ∃ stage key, s.toList = stage ++ '.' :: key ∧ '.' ∉ stage ∧ stage ≠ [] ∧ key ≠ [] ∧
    ((∀ c ∈ stage, isBlank c = true) ∨ ∀ c ∈ key, isBlank c = true)

theorem trimmed_of_parse (h : parse s = .ok r) :
    Text.trim r.stage = r.stage ∧ Text.trim r.key = r.key := by
  obtain ⟨stage, key, _, _, _, _, rfl⟩ := parse_eq_ok_iff.1 h
  exact ⟨Text.trim_trim _, Text.trim_trim _⟩

theorem formed_iff_of_parse (h : parse s = .ok r) : r.Formed ↔ ¬ r.Hollow := by
  obtain ⟨hstage, hkey⟩ := trimmed_of_parse h
  rw [Hollow, not_or]
  exact ⟨fun hf => ⟨hf.stage, hf.key⟩, fun hn => ⟨hn.1, hstage, cut_of_parse h, hn.2, hkey⟩⟩

/-- The parts of a hollow reference are cut apart again, and the empty one is found. -/
theorem parse_text_of_hollow (hcut : r.Cut) (h : r.Hollow) :
    parse r.text = .error (parse.malformed r.text) := by
  rw [parse, toList_text, Text.splitOnce_append hcut]
  have hempty : (r.stage.toList.isEmpty || r.key.toList.isEmpty) = true := by
    rcases h with h | h <;> simp [h]
  simp only [hempty, if_true]

/-- What is read of the text of a reference that was read: the reference, or nothing. -/
theorem parse_text_of_parse (h : parse s = .ok r) :
    (¬ r.Hollow → parse r.text = .ok r) ∧
    (r.Hollow → parse r.text = .error (parse.malformed r.text)) :=
  ⟨fun hn => parse_text.2 ((formed_iff_of_parse h).2 hn), parse_text_of_hollow (cut_of_parse h)⟩

theorem blankPart_iff : BlankPart s ↔ ∃ r, parse s = .ok r ∧ r.Hollow := by
  have hblank : ∀ part : List Char,
      Text.trim (String.ofList part) = "" ↔ ∀ c ∈ part, isBlank c = true := fun part => by
    rw [Text.trim_eq_empty_iff, String.toList_ofList]
  constructor
  · rintro ⟨stage, key, htext, hpoint, hstage, hkey, hpart⟩
    refine ⟨_, parse_eq_ok_iff.2 ⟨stage, key, htext, hpoint, hstage, hkey, rfl⟩, ?_⟩
    rwa [Hollow, hblank, hblank]
  · rintro ⟨r, hparse, hpart⟩
    obtain ⟨stage, key, htext, hpoint, hstage, hkey, rfl⟩ := parse_eq_ok_iff.1 hparse
    rw [Hollow, hblank, hblank] at hpart
    exact ⟨stage, key, htext, hpoint, hstage, hkey, hpart⟩

end OutputRef

/-! ## The references of a definition -/

namespace Schema

variable {δ α : Type}

theorem exists_of_mem_mapAll {f : δ → Option α} {ds : List δ} {l : List α}
    (h : mapAll f ds = some l) {a : α} (ha : a ∈ l) : ∃ d, f d = some a := by
  induction ds generalizing l with
  | nil =>
    cases h
    cases ha
  | cons d rest ih =>
    rw [mapAll] at h
    split at h
    · cases h
    · rename_i b hb
      obtain ⟨l', hl', rfl⟩ := Option.map_eq_some_iff.1 h
      rcases List.mem_cons.1 ha with rfl | ha
      · exact ⟨d, hb⟩
      · exact ih hl' ha

theorem exists_of_mem_entriesOf {f : δ → Option α} {ds : List (String × δ)}
    {l : List (String × α)} (h : entriesOf f ds = some l) {e : String × α} (he : e ∈ l) :
    ∃ d, f d = some e.2 := by
  induction ds generalizing l with
  | nil =>
    cases h
    cases he
  | cons d rest ih =>
    rw [entriesOf] at h
    split at h
    · cases h
    · rename_i a ha
      obtain ⟨l', hl', rfl⟩ := Option.map_eq_some_iff.1 h
      rcases List.mem_cons.1 he with rfl | he
      · exact ⟨d.2, ha⟩
      · exact ih hl' he

theorem mapAll_eq_none {f : δ → Option α} {ds : List δ} {d : δ} (hd : d ∈ ds)
    (h : f d = none) : mapAll f ds = none := by
  induction ds with
  | nil => cases hd
  | cons b rest ih =>
    rw [mapAll]
    rcases List.mem_cons.1 hd with rfl | hd
    · simp only [h]
    · rw [ih hd]
      split <;> rfl

theorem entriesOf_eq_none {f : δ → Option α} {ds : List (String × δ)} {d : String × δ}
    (hd : d ∈ ds) (h : f d.2 = none) : entriesOf f ds = none := by
  induction ds with
  | nil => cases hd
  | cons b rest ih =>
    rw [entriesOf]
    rcases List.mem_cons.1 hd with rfl | hd
    · simp only [h]
    · rw [ih hd]
      split <;> rfl

variable [Source δ]

theorem exists_of_mem_required {f : δ → Option α} {field : Option δ} {l : List α}
    (h : required (listOf f) field = some l) {a : α} (ha : a ∈ l) : ∃ d, f d = some a := by
  cases field with
  | none => cases h
  | some d =>
    obtain ⟨ds, _, hall⟩ := Option.bind_eq_some_iff.1 h
    exact exists_of_mem_mapAll hall ha

theorem parse_of_outputRef {d : δ} {r : OutputRef} (h : outputRef d = some r) :
    ∃ s, OutputRef.parse s = .ok r := by
  rw [outputRef] at h
  split at h
  · cases h
  · rename_i s _
    split at h
    · rename_i r' hparse
      cases h
      exact ⟨s, hparse⟩
    · cases h

end Schema

open Schema

def Stage.Referring (s : Stage) : Prop :=
  ∀ e ∈ s.inputs.entries, ∃ t, OutputRef.parse t = .ok e.2

section Reading

variable {δ : Type} [Source δ]

theorem Dict.references_of_inputs {field : Option δ} {inputs : Dict OutputRef}
    (h : withDefault ∅ (dictOf outputRef) field = some inputs) :
    ∀ e ∈ inputs.entries, ∃ t, OutputRef.parse t = .ok e.2 := by
  intro e he
  cases field with
  | none =>
    cases h
    cases he
  | some d =>
    rw [withDefault, dictOf] at h
    split at h
    · cases h
    · obtain ⟨l, hl, rfl⟩ := Option.map_eq_some_iff.1 h
      obtain ⟨d, hd⟩ := exists_of_mem_entriesOf hl (mem_of_mem_ofList he)
      exact parse_of_outputRef hd

theorem Stage.referring_of_decode? {d : δ} {s : Stage} (h : decode? d = some s) :
    s.Referring := by
  rw [decode?] at h
  split at h
  · -- the inputs are the sixth of the fields, and what comes after them leaves them alone
    iterate 5 obtain ⟨_, -, h⟩ := Option.bind_eq_some_iff.1 h
    obtain ⟨inputs, hinputs, h⟩ := Option.bind_eq_some_iff.1 h
    iterate 9 obtain ⟨_, -, h⟩ := Option.bind_eq_some_iff.1 h
    cases h
    exact Dict.references_of_inputs hinputs
  · cases h

theorem Pipeline.referring_of_decode? {d : δ} {p : Pipeline} (h : decode? d = some p) :
    ∀ s ∈ p.stages, s.Referring := by
  rw [decode?] at h
  split at h
  · iterate 5 obtain ⟨_, -, h⟩ := Option.bind_eq_some_iff.1 h
    obtain ⟨stages, hstages, h⟩ := Option.bind_eq_some_iff.1 h
    cases h
    intro s hs
    obtain ⟨d', hd'⟩ := exists_of_mem_required hstages hs
    exact Stage.referring_of_decode? hd'
  · cases h

end Reading

theorem Pipeline.referring_of_ofText {f : Format} {text : String} {p : Pipeline}
    (h : ofText f text = .ok p) : ∀ s ∈ p.stages, s.Referring := by
  have hof : ∀ {read : Option Pipeline} {e : Error},
      read.elim (.error e) Except.ok = .ok p → read = some p := by
    intro read e hread
    cases read with
    | none => cases hread
    | some q =>
      cases hread
      rfl
  cases f with
  | json =>
    have hread : ofJson? text = some p := hof h
    rw [ofJson?] at hread
    split at hread
    · cases hread
    · exact referring_of_decode? hread
  | yaml =>
    have hread : ofYaml? text = some p := hof h
    rw [ofYaml?] at hread
    split at hread
    · cases hread
    · exact referring_of_decode? hread
  | toml =>
    have hread : ofToml? text = some p := hof h
    rw [ofToml?] at hread
    split at hread
    · cases hread
    · exact referring_of_decode? hread

/-! ## Writing a definition that was read -/

def Pipeline.HasHollow (p : Pipeline) : Prop :=
  ∃ s ∈ p.stages, ∃ e ∈ s.inputs.entries, e.2.Hollow

theorem Stage.decode?_eq_none {s : Stage} (hs : s.Referring) {e : String × OutputRef}
    (he : e ∈ s.inputs.entries) (h : e.2.Hollow) : decode? s.toJson = none := by
  obtain ⟨t, hparse⟩ := hs e he
  have hread : outputRef (Json.str e.2.text) = none := by
    simp only [outputRef, text?_str, (OutputRef.parse_text_of_parse hparse).2 h]
  have hnone : dictOf outputRef
      (Json.obj (s.inputs.entries.map fun e => (e.1, .str e.2.text))) = none :=
    congrArg (Option.map Dict.ofList) (entriesOf_eq_none (List.mem_map_of_mem he) hread)
  rw [decode?_toJson]
  exact congrArg (Option.map _) hnone

/-- A definition that was loaded is read back from its JSON text, unless it has a hollow reference:
then that text is refused. -/
theorem Pipeline.reload {f : Format} {text : String} {p : Pipeline} (h : ofText f text = .ok p) :
    (¬ p.HasHollow → ofJson? p.toJson.compact = some p) ∧
    (p.HasHollow → ofJson? p.toJson.compact = none) := by
  have href := referring_of_ofText h
  rw [ofJson?, Json.parse?_compact p.plain_toJson]
  constructor
  · intro hnone
    refine decode?_eq_some_iff.2 fun s hs e he => ?_
    obtain ⟨t, hparse⟩ := href s hs e he
    exact (OutputRef.formed_iff_of_parse hparse).2 fun hhollow => hnone ⟨s, hs, e, he, hhollow⟩
  · rintro ⟨s, hs, e, he, hhollow⟩
    have hnone : listOf Stage.decode? (Json.arr (p.stages.map Stage.toJson)) = none :=
      mapAll_eq_none (List.mem_map_of_mem hs) (Stage.decode?_eq_none (href s hs) he hhollow)
    show decode? p.toJson = none
    rw [decode?_toJson, hnone]
    rfl

/-- A reference that is read has no point in its first part and trimmed parts. Its text is read
back unless one of the parts is empty, and is refused then; so is the JSON text of a definition
that has such a reference, while every other definition that was loaded is read back from its own.
The parts are never empty except where the text had only blanks in their place. And two trimmed
parts that are not empty, the first without a point, are what is read of their text. -/
theorem references_stable (s : String) (f : Pipeline.Format) (source : String) :
    (∀ r, OutputRef.parse s = .ok r →
      r.Cut ∧ Text.trim r.stage = r.stage ∧ Text.trim r.key = r.key ∧
      (¬ r.Hollow → OutputRef.parse r.text = .ok r) ∧
      (r.Hollow → OutputRef.parse r.text = .error (OutputRef.parse.malformed r.text))) ∧
    ((∃ r, OutputRef.parse s = .ok r ∧ r.Hollow) ↔ OutputRef.BlankPart s) ∧
    (∀ stage key, stage ≠ "" → Text.trim stage = stage → '.' ∉ stage.toList →
      key ≠ "" → Text.trim key = key →
      OutputRef.parse (stage ++ "." ++ key) = .ok ⟨stage, key⟩) ∧
    ∀ p, Pipeline.ofText f source = .ok p →
      (¬ p.HasHollow → Pipeline.ofJson? p.toJson.compact = some p) ∧
      (p.HasHollow → Pipeline.ofJson? p.toJson.compact = none) := by
  refine ⟨fun r h => ?_, OutputRef.blankPart_iff.symm, ?_, fun p => Pipeline.reload⟩
  · obtain ⟨hstage, hkey⟩ := OutputRef.trimmed_of_parse h
    obtain ⟨hback, hrefused⟩ := OutputRef.parse_text_of_parse h
    exact ⟨OutputRef.cut_of_parse h, hstage, hkey, hback, hrefused⟩
  · intro stage key hstage htrimmed hpoint hkey htrimmed'
    have hformed : OutputRef.Formed ⟨stage, key⟩ := ⟨hstage, htrimmed, hpoint, hkey, htrimmed'⟩
    have htext : stage ++ "." ++ key = OutputRef.text ⟨stage, key⟩ := rfl
    rw [htext]
    exact OutputRef.parse_text.2 hformed

/-- A definition whose only stage takes an input from the output `x` of a stage of blanks. -/
def blankSource : Json :=
  .obj [("name", .str "p"), ("stages", .arr [.obj [("name", .str "build"), ("run", .str "make"),
    ("inputs", .obj [("X", .str " .x")])]])]

theorem references_stable_blank : ∃ r p, OutputRef.parse " .x" = .ok r ∧ r.Hollow ∧
    Pipeline.ofText .json blankSource.compact = .ok p ∧ p.HasHollow ∧
    OutputRef.parse r.text = .error (OutputRef.parse.malformed r.text) ∧
    Pipeline.ofJson? p.toJson.compact = none := by
  let r : OutputRef := ⟨"", "x"⟩
  let p : Pipeline :=
    { name := "p"
      stages := [{ name := "build", run := .script "make", inputs := Dict.ofList [("X", r)] }] }
  have hparse : OutputRef.parse " .x" = .ok r := by rfl
  have hhollow : r.Hollow := .inl rfl
  have hplain : blankSource.Plain := by
    refine .obj ?_
    simp only [List.forall_mem_cons]
    refine ⟨.str, .arr ?_, List.forall_mem_nil _⟩
    simp only [List.forall_mem_cons]
    refine ⟨.obj ?_, List.forall_mem_nil _⟩
    simp only [List.forall_mem_cons]
    refine ⟨.str, .str, .obj ?_, List.forall_mem_nil _⟩
    simp only [List.forall_mem_cons]
    exact ⟨.str, List.forall_mem_nil _⟩
  have hload : Pipeline.ofText .json blankSource.compact = .ok p := by
    have hread : Pipeline.ofJson? blankSource.compact = some p := by
      rw [Pipeline.ofJson?, Json.parse?_compact hplain]
      rfl
    rw [Pipeline.ofText, hread]
    rfl
  have hhas : p.HasHollow :=
    ⟨_, List.mem_singleton_self _, ("X", r), List.mem_singleton_self _, hhollow⟩
  obtain ⟨hread, _, _, hreload⟩ := references_stable " .x" .json blankSource.compact
  obtain ⟨_, _, _, _, hrefused⟩ := hread r hparse
  exact ⟨r, p, hparse, hhollow, hload, hhas, hrefused hhollow, (hreload p hload).2 hhas⟩

end Conveyor
