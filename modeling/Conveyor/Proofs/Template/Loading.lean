import Conveyor.Proofs.Pipeline.Translation
import Conveyor.Yaml.Source

/-!
# Conveyor.Proofs.Template.Loading

Definitions whose first two fields are a version and a name.

The document of such a definition is a mapping, and its first entries are composed without a look
at the tokens behind them. So the name in the tokens is the name of the definition, and nothing
else of the definition depends on it.

* `Place.translation`   — a place does not depend on the root of its document.
* `opening`, `record`   — the tokens up to the name, and the mapping that they begin.
* `ofTokens_opening`    — the document of tokens that begin so.
* `definition?_opening` — the definition of such tokens, under another name.
-/

namespace Conveyor
namespace Yaml

/-! ## Places -/

namespace Place

/-- The same place, in a document with another root. -/
def underRoot (root : Node) (p : Place) : Place :=
  { p with document := { p.document with root } }

theorem target?_underRoot (root : Node) (p : Place) : (p.underRoot root).target? = p.target? := by
  obtain ⟨d, node⟩ := p
  cases node <;> rfl

theorem entries?_underRoot (root : Node) (p : Place) (entries : List (Node × Node)) :
    (p.underRoot root).entries? entries =
      (p.entries? entries).map (List.map (Prod.map id (underRoot root))) := by
  induction entries with
  | nil => rfl
  | cons e entries ih =>
    obtain ⟨key, value⟩ := e
    have hkey : ((p.underRoot root).moveTo key).asText? = (p.moveTo key).asText? := by
      rw [asText?, asText?]
      exact congrArg (Option.bind · textOf?) (target?_underRoot root (p.moveTo key))
    rw [entries?, entries?, hkey, ih]
    cases (p.moveTo key).asText? with
    | none => rfl
    | some k =>
      simp only [Option.map_map]
      rfl

theorem entries?_moveTo (node : Node) (p : Place) (entries : List (Node × Node)) :
    (p.moveTo node).entries? entries = p.entries? entries := by
  induction entries with
  | nil => rfl
  | cons e entries ih =>
    obtain ⟨key, value⟩ := e
    rw [entries?, entries?, ih]
    rfl

theorem asTable?_underRoot (root : Node) (p : Place) : (p.underRoot root).asTable? =
    p.asTable?.map (List.map (Prod.map id (underRoot root))) := by
  rw [asTable?, asTable?, target?_underRoot]
  split
  · exact entries?_underRoot root p _
  · split <;> rfl
  · rfl

/-- Only mentions look into the document, and they look for anchored nodes. -/
theorem translation (root : Node) : Source.Translation (underRoot root) where
  text p := congrArg (Option.bind · textOf?) (target?_underRoot root p)
  flag p := by
    change asFlag? _ = asFlag? _
    rw [asFlag?, asFlag?, target?_underRoot]
  count p := by
    change asCount? _ = asCount? _
    rw [asCount?, asCount?, target?_underRoot]
  optional p := by
    change asOptional? _ = (asOptional? _).map _
    rw [asOptional?, asOptional?, target?_underRoot]
    split
    · rfl
    · simp only [apply_ite (Option.map _)]
      rfl
    · simp only [apply_ite (Option.map _)]
      rfl
    · rfl
  list p := by
    change asList? _ = (asList? _).map _
    rw [asList?, asList?, target?_underRoot]
    split
    · simp only [Option.map_some, List.map_map]
      rfl
    · split <;> rfl
    · rfl
  table := asTable?_underRoot root
  record n p := by
    change (p.underRoot root).asTable?.map Sum.inl = (p.asTable?.map Sum.inl).map _
    rw [asTable?_underRoot, Option.map_map, Option.map_map]
    rfl
  variant p := by
    change asVariant? _ = asVariant? _
    rw [asVariant?, asVariant?, target?_underRoot]
  command p := by
    have htext : ∀ p : Place, (p.underRoot root).asPureText? = p.asPureText? := fun p => by
      rw [asPureText?, asPureText?, target?_underRoot]
    change asCommand? _ = asCommand? _
    rw [asCommand?, asCommand?, target?_underRoot, htext]
    split
    · rfl
    · refine ite_congr rfl (fun _ => rfl) fun _ => ?_
      exact congrArg (Option.map Command.argv)
        (congrFun (congrArg Schema.mapAll (funext fun item => htext (p.moveTo item))) _)
    · rfl

end Place

/-! ## Documents -/

namespace Compose

variable (fuel : Nat) (c : Composer) {ts : List Token}

theorem blockEntries_scalars {s s' : ScalarStyle} {k v : String}
    (hc : c.tokens = .key :: .scalar s k :: .value :: .scalar s' v :: ts) :
    (blockEntries (fuel + 3)).run c =
      ((blockEntries (fuel + 2)).run { c with tokens := ts }).map fun r =>
        ((.scalar none s k, .scalar none s' v) :: r.1, r.2) := by
  obtain ⟨_, handles, names, started, anchored⟩ := c
  subst hc
  rw [blockEntries]
  -- only the entries behind this one stay as they are
  generalize blockEntries (fuel + 2) = rest
  change (rest.run ⟨ts, handles, names, started, anchored⟩).bind
    (fun r => some ((.scalar none s k, .scalar none s' v) :: r.1, r.2)) = _
  exact Option.map_eq_bind.symm

theorem node_mapping (indentless : Bool) (hc : c.tokens = .blockMappingStart :: ts) :
    (node (fuel + 2) true indentless).run c =
      ((blockEntries fuel).run { c with tokens := ts }).map fun r => (.mapping none r.1, r.2) := by
  obtain ⟨_, handles, names, started, anchored⟩ := c
  subst hc
  rw [node]
  generalize hcontent : content (fuel + 1) true indentless = read
  change (read {}).run ⟨.blockMappingStart :: ts, handles, names, started, anchored⟩ = _
  rw [← hcontent, content]
  generalize blockEntries fuel = rest
  change (rest.run ⟨ts, handles, names, started, anchored⟩).bind
    (fun r => some (Node.mapping none r.1, r.2)) = _
  exact Option.map_eq_bind.symm

end Compose

/-! ## Definitions -/

/-- The tokens up to the name. -/
def opening (name : String) : List Token :=
  [.blockMappingStart,
    .key, .scalar .plain "version", .value, .scalar .doubleQuoted "1",
    .key, .scalar .plain "name", .value, .scalar .doubleQuoted name]

/-- The mapping of such tokens, with the entries behind the name. -/
def record (name : String) (entries : List (Node × Node)) : Node :=
  .mapping none
    ((.scalar none .plain "version", .scalar none .doubleQuoted "1") ::
      (.scalar none .plain "name", .scalar none .doubleQuoted name) :: entries)

/-- The entries behind the name are composed without a look at the name. -/
theorem ofTokens_opening (ts : List Token) :
    ∃ composed : Option (List (Node × Node) × List Anchored), ∀ name,
      Document.ofTokens (opening name ++ ts) =
        composed.map fun r => { root := record name r.1, anchored := r.2 } := by
  let fuel := 4 * ts.length + 34
  let rest := (Compose.blockEntries (fuel + 2)).run
    { tokens := ts, handles := Compose.defaultHandles }
  refine ⟨rest.bind fun r =>
    if r.2.tokens.all (· = .documentEnd) then some (r.1, r.2.anchored) else none, fun name => ?_⟩
  have hroot : (Compose.node (fuel + 6) true false).run
      { tokens := opening name ++ ts, handles := Compose.defaultHandles } =
        rest.map fun r => (record name r.1, r.2) := by
    rw [Compose.node_mapping _ _ _ rfl, Compose.blockEntries_scalars _ _ rfl,
      Compose.blockEntries_scalars _ _ rfl, Option.map_map, Option.map_map]
    rfl
  have hlength : 4 * (opening name ++ ts).length + 4 = fuel + 6 := by
    simp only [opening, List.cons_append, List.nil_append, List.length_cons, fuel]
    omega
  have hread : StateT.run (do Compose.opening; Compose.root false)
      ({ tokens := opening name ++ ts } : Composer) = rest.map fun r => (record name r.1, r.2) := by
    rw [← hroot, ← hlength]
    rfl
  rw [Document.ofTokens, hread]
  · obtain - | r := rest
    · rfl
    · simp only [Option.map_some, Option.bind_some]
      split <;> rfl
  -- no directive and no marker comes first
  · rintro _ _ _ ⟨⟩
  · rintro _ _ _ ⟨⟩
  · rintro _ ⟨⟩

/-- The definition of a text that is already split into tokens. -/
def definition? (tokens : List Token) : Option Pipeline :=
  (Document.ofTokens tokens).bind fun d => Pipeline.decode? (Place.mk d d.root)

theorem record?_record (d : Document) (name : String) (entries : List (Node × Node)) (n : Nat) :
    Source.record? n (Place.mk d (record name entries)) =
      ((Place.mk d .empty).entries? entries).map fun fields => .inl
        ([("version", ⟨d, .scalar none .doubleQuoted "1"⟩)] ++
          ("name", ⟨d, .scalar none .doubleQuoted name⟩) :: fields) := by
  have hmore := Place.entries?_moveTo (record name entries) ⟨d, .empty⟩ entries
  rw [← hmore]
  change (Option.map _ (Option.map _ (Place.entries? _ entries))).map _ = _
  rw [Option.map_map, Option.map_map]
  rfl

theorem definition?_opening (name name' : String) (ts : List Token) :
    definition? (opening name' ++ ts) =
      (definition? (opening name ++ ts)).map fun p => { p with name := name' } := by
  obtain ⟨composed, hcomposed⟩ := ofTokens_opening ts
  rw [definition?, definition?, hcomposed, hcomposed]
  obtain - | ⟨entries, anchored⟩ := composed
  · rfl
  let d : Document := ⟨record name entries, anchored⟩
  have hroot : Pipeline.decode? (Place.mk ⟨record name' entries, anchored⟩ (record name' entries)) =
      Pipeline.decode? (Place.mk d (record name' entries)) :=
    (Place.translation (record name' entries)).pipeline ⟨d, record name' entries⟩
  simp only [Option.map_some, Option.bind_some]
  rw [hroot]
  cases hfields : (Place.mk d .empty).entries? entries with
  | none =>
    have hnone : ∀ name, Pipeline.decode? (Place.mk d (record name entries)) = none := by
      intro name
      rw [Pipeline.decode?, Schema.fields?, record?_record, hfields]
      rfl
    rw [hnone, hnone]
    rfl
  | some fields =>
    have hrecord : ∀ name n, Source.record? n (Place.mk d (record name entries)) =
        some (.inl ([("version", ⟨d, .scalar none .doubleQuoted "1"⟩)] ++
          ("name", ⟨d, .scalar none .doubleQuoted name⟩) :: fields)) := by
      intro name n
      rw [record?_record, hfields]
      rfl
    exact Pipeline.decode?_named (hrecord name _) (hrecord name' _) rfl rfl

theorem ofYaml?_eq (text : String) : Pipeline.ofYaml? text = (tokens? text).bind definition? := by
  rw [Pipeline.ofYaml?, Document.parse]
  cases tokens? text with
  | none => rfl
  | some ts =>
    rw [Option.bind_some, Option.bind_some, definition?]
    cases Document.ofTokens ts <;> rfl

end Yaml
end Conveyor
