import Conveyor.Json.Source
import Conveyor.Proofs.Json.RoundTrip
import Mathlib.Data.List.Nodup
import Mathlib.Data.Option.Basic

/-!
# Conveyor.Proofs.Pipeline.RoundTrip

Definitions that are written and read again.

The schema writes every field of every record, under names that are all different, so reading
finds each value where it was written. What is left is that each value is read back by itself. The
only one that may not be is a reference to an output: its two parts are written into one text,
with a point between them, and are trimmed when they are read.

* `OutputRef.Formed`     — a reference that its text determines.
* `OutputRef.Cut`        — a reference whose text is cut where its parts were joined, as every
                           reference is that was read.
* `OutputRef.parse_text` — exactly these are read back.
* `Schema.fields?_obj`   — the fields of a record that was written.
* `Stage.decode?_toJson`, `Pipeline.decode?_toJson` — what is read of a stage and of a definition
                           that were written.
* `Pipeline.plain_toJson` — a definition is written in plain values.
* `definitions_round_trip` — a definition is read back from its JSON text, exactly if all its
                             references are determined by their texts.
-/

namespace Conveyor

/-! ## References to outputs -/

theorem Text.mem_of_mem_trim {c : Char} {t : String} (h : c ∈ (trim t).toList) :
    c ∈ t.toList := by
  rw [trim, String.toList_ofList, trimRight, List.mem_reverse] at h
  have hleft := (List.dropWhile_sublist _).subset h
  rw [List.mem_reverse] at hleft
  exact (List.dropWhile_sublist _).subset hleft

namespace OutputRef

/-- Both parts are there and trimmed, and the first has no point. -/
structure Formed (r : OutputRef) : Prop where
  stage : r.stage ≠ ""
  stageTrimmed : Text.trim r.stage = r.stage
  point : '.' ∉ r.stage.toList
  key : r.key ≠ ""
  keyTrimmed : Text.trim r.key = r.key

variable {r : OutputRef} {s : String}

theorem toList_text (r : OutputRef) : r.text.toList = r.stage.toList ++ '.' :: r.key.toList := by
  simp [text]

/-- A text that is read is two parts, neither of them empty, which are trimmed then. -/
theorem parse_eq_ok_iff : parse s = .ok r ↔ ∃ stage key, s.toList = stage ++ '.' :: key ∧
    '.' ∉ stage ∧ stage ≠ [] ∧ key ≠ [] ∧
      r = ⟨Text.trim (String.ofList stage), Text.trim (String.ofList key)⟩ := by
  rw [parse]
  constructor
  · intro h
    split at h
    · rename_i stage key hcut
      obtain ⟨htext, hpoint⟩ := Text.splitOnce_eq_some_iff.1 hcut
      split at h
      · cases h
      · rename_i hparts
        cases h
        simp only [Bool.or_eq_true, List.isEmpty_iff, not_or] at hparts
        exact ⟨stage, key, htext, hpoint, hparts.1, hparts.2, rfl⟩
    · cases h
  · rintro ⟨stage, key, htext, hpoint, hstage, hkey, rfl⟩
    rw [htext, Text.splitOnce_append hpoint]
    simp [hstage, hkey]

/-- The first point of the text is the one between the two parts. -/
def Cut (r : OutputRef) : Prop := '.' ∉ r.stage.toList

theorem cut_of_parse (h : parse s = .ok r) : r.Cut := by
  obtain ⟨stage, key, _, hpoint, _, _, rfl⟩ := parse_eq_ok_iff.1 h
  intro hmem
  have hmem := Text.mem_of_mem_trim hmem
  rw [String.toList_ofList] at hmem
  exact hpoint hmem

theorem parse_text : parse r.text = .ok r ↔ r.Formed := by
  constructor
  · intro h
    -- the text is cut where its parts were joined
    have hpoint' := cut_of_parse h
    rw [parse_eq_ok_iff, toList_text] at h
    obtain ⟨stage, key, htext, hpoint, hstage, hkey, hr⟩ := h
    have hr₁ : r.stage = Text.trim (String.ofList stage) := congrArg OutputRef.stage hr
    have hr₂ : r.key = Text.trim (String.ofList key) := congrArg OutputRef.key hr
    have hcut := Text.splitOnce_append hpoint' r.key.toList
    rw [htext, Text.splitOnce_append hpoint] at hcut
    cases hcut
    rw [String.ofList_toList] at hr₁ hr₂
    exact ⟨by simpa using hstage, hr₁.symm, hpoint', by simpa using hkey, hr₂.symm⟩
  · intro h
    rw [parse_eq_ok_iff, toList_text]
    refine ⟨_, _, rfl, h.point, by simpa using h.stage, by simpa using h.key, ?_⟩
    rw [String.ofList_toList, String.ofList_toList, h.stageTrimmed, h.keyTrimmed]

end OutputRef

/-! ## Reading what was written -/

namespace Schema

variable {α β : Type}

theorem byName_append {pre fields : List (String × Json)}
    (h : ((pre ++ fields).map (·.1)).Nodup) :
    byName (pre ++ fields) (fields.map (·.1)) = some (fields.map fun f => some f.2) := by
  induction fields generalizing pre with
  | nil => rfl
  | cons f rest ih =>
    have hfilter : (pre ++ f :: rest).filter (·.1 = f.1) = [f] := by
      rw [List.map_append, List.map_cons, List.nodup_middle, List.nodup_cons, List.mem_append,
        not_or] at h
      have hother : ∀ l : List (String × Json), f.1 ∉ l.map (·.1) →
          l.filter (·.1 = f.1) = [] := by
        intro l hl
        refine List.filter_eq_nil_iff.2 fun g hg => ?_
        simpa using fun heq : g.1 = f.1 => hl (heq ▸ List.mem_map_of_mem hg)
      rw [List.filter_append, List.filter_cons, hother pre h.1.1, hother rest h.1.2]
      simp
    have happend : pre ++ f :: rest = (pre ++ [f]) ++ rest := by simp
    have hrest : byName (pre ++ f :: rest) (rest.map (·.1)) =
        some (rest.map fun g => some g.2) := by
      rw [happend] at h ⊢
      exact ih h
    rw [List.map_cons, byName, hfilter, hrest]
    rfl

theorem fields?_obj {fields : List (String × Json)} {names : List String}
    (hnames : fields.map (·.1) = names) (hdistinct : names.Nodup) :
    fields? names (Json.obj fields) = some (fields.map fun f => some f.2) := by
  subst hnames
  exact @byName_append [] fields hdistinct

theorem mapAll_map_eq_some_iff {f : Json → Option α} {g : α → Json} {l : List α} :
    mapAll f (l.map g) = some l ↔ ∀ a ∈ l, f (g a) = some a := by
  induction l with
  | nil => simp [mapAll]
  | cons a rest ih =>
    rw [List.map_cons, mapAll, List.forall_mem_cons, ← ih]
    cases hread : f (g a) with
    | none => simp
    | some b =>
      cases mapAll f (rest.map g) with
      | none => simp
      | some l => simp

theorem listOf_eq_some_iff {f : Json → Option α} {g : α → Json} {l : List α} :
    listOf f (Json.arr (l.map g)) = some l ↔ ∀ a ∈ l, f (g a) = some a :=
  mapAll_map_eq_some_iff

theorem entriesOf_map_eq_some_iff {f : Json → Option α} {g : α → Json} {l : List (String × α)} :
    entriesOf f (l.map fun (k, a) => (k, g a)) = some l ↔ ∀ e ∈ l, f (g e.2) = some e.2 := by
  induction l with
  | nil => simp [entriesOf]
  | cons e rest ih =>
    obtain ⟨k, a⟩ := e
    rw [List.map_cons, entriesOf, List.forall_mem_cons, ← ih]
    cases hread : f (g a) with
    | none => simp
    | some b =>
      cases entriesOf f (rest.map fun (k, a) => (k, g a)) with
      | none => simp
      | some l => simp

theorem keys_of_entriesOf {f : Json → Option α} {fields : List (String × Json)}
    {l : List (String × α)} (h : entriesOf f fields = some l) :
    l.map (·.1) = fields.map (·.1) := by
  induction fields generalizing l with
  | nil =>
    cases h
    rfl
  | cons e rest ih =>
    rw [entriesOf] at h
    split at h
    · cases h
    · obtain ⟨l', hl', rfl⟩ := Option.map_eq_some_iff.1 h
      rw [List.map_cons, List.map_cons, ih hl']

theorem dictOf_eq_some_iff {f : Json → Option α} {g : α → Json} {d : Dict α} :
    dictOf f (Json.obj (d.entries.map fun (k, a) => (k, g a))) = some d ↔
      ∀ e ∈ d.entries, f (g e.2) = some e.2 := by
  rw [← entriesOf_map_eq_some_iff]
  constructor
  · intro h
    obtain ⟨l, hl, hd⟩ := Option.map_eq_some_iff.1 h
    have hkeys : l.map (·.1) = d.entries.map (·.1) := by
      rw [keys_of_entriesOf hl, List.map_map]
      rfl
    have hentries := Dict.entries_ofList (Dict.sortedKeys_of_keys hkeys d.sorted)
    rw [hd] at hentries
    rw [hl, hentries]
  · intro h
    exact Option.map_eq_some_iff.2 ⟨d.entries, h, Dict.ofList_entries d⟩

/-- A field that may be absent is read back if what it holds is, and is not written as absent. -/
theorem optionalField_opt {f : Json → Option α} {g : α → Json} (hread : ∀ a, f (g a) = some a)
    (hnull : ∀ a, g a ≠ .null) (o : Option α) :
    optionalField f (some (Json.opt g o)) = some o := by
  cases o with
  | none => rfl
  | some a =>
    have hthere : Source.optional? (g a) = some (some (g a)) := by
      cases hg : g a with
      | null => exact absurd hg (hnull a)
      | _ => rfl
    simp only [optionalField, Json.opt, hthere, hread, Option.map_some]

@[simp] theorem text?_str (t : String) : Source.text? (Json.str t) = some t := rfl

@[simp] theorem flag?_bool (b : Bool) : Source.flag? (Json.bool b) = some b := rfl

@[simp] theorem count?_count (n : UInt64) : Source.count? (Json.count n) = some n := by
  have hrange : (0 : Int) ≤ n.toNat ∧ (n.toNat : Int) < UInt64.size :=
    ⟨Int.natCast_nonneg _, Int.ofNat_lt.2 n.toNat_lt_size⟩
  show Json.asCount? (Json.count n) = some n
  rw [Json.count, Json.asCount?, if_pos hrange, Int.toNat_natCast, UInt64.ofNat_toNat]

@[simp] theorem optionalField_count (o : Option UInt64) :
    optionalField Source.count? (some (Json.opt Json.count o)) = some o :=
  optionalField_opt count?_count (fun _ h => by cases h) o

@[simp] theorem optionalField_text (o : Option String) :
    optionalField Source.text? (some (Json.opt .str o)) = some o :=
  @optionalField_opt String Source.text? .str (fun _ => rfl) (fun _ h => by cases h) o

@[simp] theorem texts_strings (l : List String) : texts (Json.strings l) = some l :=
  listOf_eq_some_iff.2 fun _ _ => rfl

@[simp] theorem texts_dict (d : Dict String) : dictOf Source.text? d.toJson = some d :=
  dictOf_eq_some_iff.2 fun _ _ => rfl

theorem eventKind_name (e : EventKind) : eventKind (Json.str e.name) = some e := by
  cases e <;> rfl

@[simp] theorem policy_name (p : Policy) : policy (Json.str p.name) = some p := by
  cases p <;> rfl

@[simp] theorem command?_toJson (c : Command) : Source.command? c.toJson = some c := by
  cases c with
  | script text => rfl
  | argv words =>
    have hwords : mapAll Json.asStr? (words.map .str) = some words :=
      mapAll_map_eq_some_iff.2 fun _ _ => rfl
    exact congrArg (Option.map Command.argv) hwords

theorem outputRef_text {r : OutputRef} : outputRef (Json.str r.text) = some r ↔ r.Formed := by
  rw [← OutputRef.parse_text, outputRef]
  simp only [text?_str]
  split
  · rename_i r' hparse
    rw [hparse, Option.some.injEq, Except.ok.injEq]
  · rename_i e hparse
    simp [hparse]

@[simp] theorem withDefault_some (a : α) (f : Json → Option α) (j : Json) :
    withDefault a f (some j) = f j := rfl

@[simp] theorem required_some (f : Json → Option α) (j : Json) : required f (some j) = f j := rfl

end Schema

open Schema

@[simp] theorem Settings.decode?_toJson (s : Settings) : decode? s.toJson = some s := by
  have hgrace : withDefault 10 Source.count? (some (Json.count s.cancelGraceSecs)) =
      some s.cancelGraceSecs := by rw [withDefault, count?_count]
  rw [decode?, toJson, fields?_obj (by rfl) (by decide)]
  simp only [List.map_cons, List.map_nil]
  rw [hgrace]
  simp

@[simp] theorem Conditions.decode?_toJson (c : Conditions) : decode? c.toJson = some c := by
  rw [decode?, toJson, fields?_obj (by rfl) (by decide)]
  have hevents : listOf eventKind (Json.arr (c.events.map fun e => .str e.name)) = some c.events :=
    listOf_eq_some_iff.2 fun e _ => eventKind_name e
  simp [hevents]

/-- All of a stage that was written is read back, except for its references. -/
theorem Stage.decode?_toJson (s : Stage) : decode? s.toJson =
    (dictOf outputRef (Json.obj (s.inputs.entries.map fun (k, r) => (k, .str r.text)))).map
      fun inputs => { s with inputs } := by
  rw [decode?, toJson, fields?_obj (by rfl) (by decide)]
  simp [Option.map_eq_bind]

theorem Stage.decode?_eq_some_iff {s : Stage} :
    decode? s.toJson = some s ↔ ∀ e ∈ s.inputs.entries, e.2.Formed := by
  rw [decode?_toJson]
  simp only [← outputRef_text]
  rw [← @dictOf_eq_some_iff OutputRef outputRef (fun r => .str r.text), Option.map_eq_some_iff]
  constructor
  · rintro ⟨inputs, hinputs, heq⟩
    rw [hinputs, ← congrArg Stage.inputs heq]
  · intro h
    exact ⟨s.inputs, h, rfl⟩

theorem Pipeline.decode?_toJson (p : Pipeline) : decode? p.toJson =
    (listOf Stage.decode? (Json.arr (p.stages.map Stage.toJson))).map
      fun stages => { p with stages } := by
  rw [decode?, toJson, fields?_obj (by rfl) (by decide)]
  simp [Option.map_eq_bind]

theorem Pipeline.decode?_eq_some_iff {p : Pipeline} : decode? p.toJson = some p ↔
    ∀ s ∈ p.stages, ∀ e ∈ s.inputs.entries, e.2.Formed := by
  rw [decode?_toJson]
  simp only [← Stage.decode?_eq_some_iff]
  rw [← listOf_eq_some_iff, Option.map_eq_some_iff]
  constructor
  · rintro ⟨stages, hstages, heq⟩
    rw [hstages, ← congrArg Pipeline.stages heq]
  · intro h
    exact ⟨p.stages, h, rfl⟩

/-! ## Through the text -/

namespace Json

theorem plain_opt {α : Type} {f : α → Json} (hf : ∀ a, (f a).Plain) (o : Option α) :
    (opt f o).Plain := by
  cases o with
  | none => exact .null
  | some a => exact hf a

theorem plain_arr {α : Type} {f : α → Json} (hf : ∀ a, (f a).Plain) (l : List α) :
    (arr (l.map f)).Plain := by
  refine .arr fun j hj => ?_
  obtain ⟨a, _, rfl⟩ := List.mem_map.1 hj
  exact hf a

theorem plain_obj {α : Type} {f : α → Json} (hf : ∀ a, (f a).Plain) (l : List (String × α)) :
    (obj (l.map fun (k, a) => (k, f a))).Plain := by
  refine .obj fun field hfield => ?_
  obtain ⟨e, _, rfl⟩ := List.mem_map.1 hfield
  exact hf e.2

theorem plain_text (o : Option String) : (opt str o).Plain := plain_opt (fun _ => .str) o

theorem plain_count (o : Option UInt64) : (opt count o).Plain := plain_opt (fun _ => .int) o

theorem plain_strings (l : List String) : (strings l).Plain := plain_arr (fun _ => .str) l

end Json

theorem Dict.plain_toJson (d : Dict String) : d.toJson.Plain :=
  @Json.plain_obj String .str (fun _ => .str) d.entries

theorem Command.plain_toJson (c : Command) : c.toJson.Plain := by
  cases c with
  | script => exact .str
  | argv words => exact Json.plain_strings words

theorem Settings.plain_toJson (s : Settings) : s.toJson.Plain := by
  refine .obj ?_
  simp only [List.forall_mem_cons]
  exact ⟨Json.plain_count _, Json.plain_count _, .int, .bool, .str, nofun⟩

theorem Conditions.plain_toJson (c : Conditions) : c.toJson.Plain := by
  refine .obj ?_
  simp only [List.forall_mem_cons]
  exact ⟨Json.plain_arr (fun _ => .str) _, Json.plain_strings _, Json.plain_strings _,
    Json.plain_text _, nofun⟩

theorem Stage.plain_toJson (s : Stage) : s.toJson.Plain := by
  refine .obj ?_
  simp only [List.forall_mem_cons]
  exact ⟨.str, Json.plain_text _, s.run.plain_toJson, Json.plain_text _, Json.plain_strings _,
    Json.plain_obj (fun _ => .str) _, Json.plain_strings _, s.conditions.plain_toJson, .str, .bool,
    Json.plain_text _, Json.plain_text _, Json.plain_count _, s.env.plain_toJson,
    Json.plain_strings _, nofun⟩

theorem Pipeline.plain_toJson (p : Pipeline) : p.toJson.Plain := by
  refine .obj ?_
  simp only [List.forall_mem_cons]
  exact ⟨.str, .str, Json.plain_text _, p.settings.plain_toJson, p.env.plain_toJson,
    Json.plain_arr Stage.plain_toJson _, nofun⟩

/-- Every definition is read back from its JSON text as it was, with every setting, stage, command,
condition, input and output, exactly if each of its references has two parts that are trimmed and
not empty, and no point in the first one. -/
theorem definitions_round_trip (p : Pipeline) : Pipeline.ofJson? p.toJson.compact = some p ↔
    ∀ s ∈ p.stages, ∀ e ∈ s.inputs.entries, e.2.Formed := by
  rw [Pipeline.ofJson?, Json.parse?_compact p.plain_toJson]
  exact Pipeline.decode?_eq_some_iff

end Conveyor
