import Conveyor.Pipeline.Schema
import Conveyor.Yaml.Node
import Conveyor.Yaml.PlainValue

/-!
# Conveyor.Yaml.Source

YAML as a format of definitions.

* `Yaml.Place`       — a node of a document, where a mention stands for the node it mentions.
* `Pipeline.ofYaml?` — the definition that a YAML text describes.

Any scalar is a text, whatever it spells. Truth values and counts are plain scalars. An empty
plain scalar is also an empty list, table or record. Only a command must say by its spelling
that it is a text.
-/

namespace Conveyor
namespace Yaml

structure Place where
  document : Document
  node : Node

namespace Place

def target? (p : Place) : Option Node := p.document.resolve p.node

def moveTo (p : Place) (node : Node) : Place := { p with node }

/-! ## Tags -/

def kindTag (kind : String) : String := "tag:yaml.org,2002:" ++ kind

/-- The name that a tag of a document of its own gives to a value. -/
def tagName? : Option String → Option String
  | none => none
  | some tag =>
    match tag.toList with
    | ['!'] => some "!"
    | '!' :: name => some (String.ofList name)
    | _ => none

/-- The scalar may be read as a kind of values: it is plain, or a literal block with that
tag. -/
def spells (kind : String) (tag : Option String) (style : ScalarStyle) : Bool :=
  style = .plain || (style = .literal && tag = some (kindTag kind))

/-! ## Demands -/

def textOf? : Node → Option String
  | .scalar _ _ text => some text
  | _ => none

def asText? (p : Place) : Option String := p.target?.bind textOf?

def asFlag? (p : Place) : Option Bool :=
  match p.target? with
  | some (.scalar tag style text) => if spells "bool" tag style then boolWord? text else none
  | _ => none

def asCount? (p : Place) : Option UInt64 :=
  match p.target? with
  | some (.scalar tag style text) => if spells "int" tag style then count? text else none
  | _ => none

def asOptional? (p : Place) : Option (Option Place) :=
  match p.target? with
  | none => none
  | some (.scalar (some tag) .plain text) =>
    if tag = kindTag "null" then (if isNullWord text then some none else none)
    else some (some p)
  | some (.scalar none .plain text) =>
    if text.isEmpty || isNullWord text then some none else some (some p)
  | some _ => some (some p)

def isEmptyPlain : Node → Bool
  | .scalar _ .plain text => text.isEmpty
  | _ => false

def asList? (p : Place) : Option (List Place) :=
  match p.target? with
  | some (.sequence _ items) => some (items.map p.moveTo)
  | some n => if isEmptyPlain n then some [] else none
  | none => none

def entries? (p : Place) : List (Node × Node) → Option (List (String × Place))
  | [] => some []
  | (key, value) :: rest =>
    match (p.moveTo key).asText? with
    | none => none
    | some k => (entries? p rest).map ((k, p.moveTo value) :: ·)

def asTable? (p : Place) : Option (List (String × Place)) :=
  match p.target? with
  | some (.mapping _ entries) => p.entries? entries
  | some n => if isEmptyPlain n then some [] else none
  | none => none

def asVariant? (p : Place) : Option String :=
  match p.target? with
  | some (.scalar tag style text) =>
    match tagName? tag with
    | none => some text
    | some name => if style = .plain && (text.isEmpty || isNullWord text) then some name else none
  | _ => none

/-- A text that cannot be taken for a value of another kind. -/
def asPureText? (p : Place) : Option String :=
  match p.target? with
  | some (.scalar none style text) =>
    if style = .plain && PlainValue.of text ≠ .text then none else some text
  | some (.scalar (some tag) _ text) =>
    if (tagName? (some tag)).isSome || (["bool", "int", "float", "null"].map kindTag).contains tag
    then none
    else some text
  | _ => none

def asCommand? (p : Place) : Option Command :=
  match p.target? with
  | some (.scalar _ _ _) => p.asPureText?.map .script
  | some (.sequence tag items) =>
    if (tagName? tag).isSome then none
    else (Schema.mapAll (fun item => (p.moveTo item).asPureText?) items).map .argv
  | _ => none

end Place

instance : Source Place where
  text? := Place.asText?
  flag? := Place.asFlag?
  count? := Place.asCount?
  optional? := Place.asOptional?
  list? := Place.asList?
  table? := Place.asTable?
  record? _ p := p.asTable?.map .inl
  variant? := Place.asVariant?
  command? := Place.asCommand?

end Yaml

def Pipeline.ofYaml? (text : String) : Option Pipeline :=
  match Yaml.Document.parse text with
  | none => none
  | some d => Pipeline.decode? (Yaml.Place.mk d d.root)

end Conveyor
