import Conveyor.Yaml.Lexer

/-!
# Conveyor.Yaml.Node

The tree of nodes of a YAML document.

* `Node`           — a scalar, a sequence, a mapping, or a mention of an anchored node.
* `Document`       — a root with the nodes that its anchors name.
* `Document.parse` — the one document of a text.

Where a token ends the place of a node before the node came, the node is an empty plain scalar.
-/

namespace Conveyor
namespace Yaml

/-- What may stand before a node. -/
structure Properties where
  anchor : Option Nat := none
  tag : Option String := none
  deriving DecidableEq, Repr

inductive Node where
  | scalar (tag : Option String) (style : ScalarStyle) (text : String)
  | sequence (tag : Option String) (items : List Node)
  | mapping (tag : Option String) (entries : List (Node × Node))
  /-- A node that stands elsewhere, under that number. -/
  | mention (anchor : Nat)
  deriving Repr, Inhabited

def Node.empty : Node := .scalar none .plain ""

/-- A node under an anchor, with the number of anchored nodes that start before it. -/
structure Anchored where
  anchor : Nat
  start : Nat
  node : Node
  deriving Repr

structure Composer where
  tokens : List Token
  /-- What the handles of tags stand for. -/
  handles : List (String × String) := []
  /-- The numbers of the names of anchors; the latest comes first. -/
  names : List (String × Nat) := []
  started : Nat := 0
  anchored : List Anchored := []

abbrev Compose := StateT Composer Option

namespace Compose

def peek : Compose (Option Token) := do return (← get).tokens.head?

def skip : Compose Unit := modify fun c => { c with tokens := c.tokens.drop 1 }

def take? (t : Token) : Compose Bool := do
  if (← peek) = some t then
    skip
    return true
  else return false

def expect (t : Token) : Compose Unit := do
  if !(← take? t) then failure

/-- A node, or an empty one before a token that ends its place. -/
def nodeBefore (enders : List Token) (read : Compose Node) : Compose Node := do
  if (← peek).any enders.contains then return .empty else read

/-! ## Properties -/

/-- Gives a name to the node that starts here. Its number is the number of names so far, so a
name that is given again does not make room for the next one. -/
def name (name : String) : Compose Nat := do
  let c ← get
  let id := c.names.length
  let others := c.names.filter (·.1 ≠ name)
  set { c with names := (name, id) :: others }
  return id

/-- The tag of a handle and a suffix. -/
def resolveTag (handle suffix : String) : Compose String := do
  if handle.isEmpty then return suffix
  else
    match (← get).handles.lookup handle with
    | some lead => return lead ++ suffix
    | none => failure

def anchor? : Compose (Option Nat) := do
  match ← peek with
  | some (.anchor n) =>
    skip
    return some (← name n)
  | _ => return none

def tag? : Compose (Option String) := do
  match ← peek with
  | some (.tag handle suffix) =>
    skip
    return some (← resolveTag handle suffix)
  | _ => return none

/-- An anchor and a tag in either order. -/
def properties : Compose Properties := do
  match ← anchor? with
  | some id => return ⟨some id, ← tag?⟩
  | none =>
    match ← tag? with
    | some tag => return ⟨← anchor?, some tag⟩
    | none => return {}

def start : Compose Nat :=
  modifyGet fun c => (c.started, { c with started := c.started + 1 })

def keep (a : Anchored) : Compose Unit :=
  modify fun c => { c with anchored := a :: c.anchored }

/-! ## Nodes -/

/-- A node without content has an anchor or a tag at least. -/
def bare (p : Properties) : Compose Node :=
  if p = {} then failure else return .scalar p.tag .plain ""

mutual

/-- A node. A block may only stand where `block` says so, and a sequence without an indentation
of its own only where `indentless` does. -/
def node : Nat → Bool → Bool → Compose Node
  | 0, _, _ => failure
  | fuel + 1, block, indentless => do
    match ← peek with
    | some (.alias n) =>
      skip
      match (← get).names.lookup n with
      | some id => return .mention id
      | none => failure
    | _ =>
      let p ← properties
      match p.anchor with
      | none => content fuel block indentless p
      | some anchor =>
        let start ← start
        let node ← content fuel block indentless p
        keep { anchor, start, node }
        return node

/-- What comes after the properties of a node. A tag of one `!` on a scalar means nothing. -/
def content : Nat → Bool → Bool → Properties → Compose Node
  | 0, _, _, _ => failure
  | fuel + 1, block, indentless, p => do
    match ← peek with
    | some (.scalar style text) =>
      skip
      return .scalar (p.tag.filter (· ≠ "!")) style text
    | some .flowSequenceStart =>
      skip
      return .sequence p.tag (← flowItems fuel true)
    | some .flowMappingStart =>
      skip
      return .mapping p.tag (← flowEntries fuel true)
    | some .blockSequenceStart =>
      if block then
        skip
        return .sequence p.tag (← blockItems fuel)
      else bare p
    | some .blockMappingStart =>
      if block then
        skip
        return .mapping p.tag (← blockEntries fuel)
      else bare p
    | some .blockEntry =>
      if indentless then return .sequence p.tag (← indentlessItems fuel) else bare p
    | _ => bare p

def blockItems : Nat → Compose (List Node)
  | 0 => failure
  | fuel + 1 => do
    if ← take? .blockEntry then
      let item ← nodeBefore [.blockEntry, .blockEnd] (node fuel true false)
      return item :: (← blockItems fuel)
    else
      expect .blockEnd
      return []

/-- The items of a sequence at the indentation of the mapping around it. -/
def indentlessItems : Nat → Compose (List Node)
  | 0 => failure
  | fuel + 1 => do
    if ← take? .blockEntry then
      let item ← nodeBefore [.blockEntry, .key, .value, .blockEnd] (node fuel true false)
      return item :: (← indentlessItems fuel)
    else return []

def blockEntries : Nat → Compose (List (Node × Node))
  | 0 => failure
  | fuel + 1 => do
    if ← take? .key then
      let enders := [.key, .value, .blockEnd]
      let key ← nodeBefore enders (node fuel true true)
      let value ←
        if ← take? .value then nodeBefore enders (node fuel true true) else pure Node.empty
      return (key, value) :: (← blockEntries fuel)
    else
      expect .blockEnd
      return []

def flowItems : Nat → Bool → Compose (List Node)
  | 0, _ => failure
  | fuel + 1, first => do
    if ← take? .flowSequenceEnd then return []
    else
      if !first then expect .flowEntry
      if ← take? .key then
        let entry ← flowPair fuel
        return .mapping none [entry] :: (← flowItems fuel false)
      else if ← take? .flowSequenceEnd then return []
      else
        let item ← node fuel false false
        return item :: (← flowItems fuel false)

/-- One entry of a mapping inside a flow sequence, after the mark of its key. The token after a
key that is missing is passed over. -/
def flowPair : Nat → Compose (Node × Node)
  | 0 => failure
  | fuel + 1 => do
    let key ←
      if (← peek).any [Token.value, .flowEntry, .flowSequenceEnd].contains then
        skip
        pure Node.empty
      else node fuel false false
    let value ←
      if ← take? .value then nodeBefore [.flowEntry, .flowSequenceEnd] (node fuel false false)
      else pure Node.empty
    return (key, value)

def flowEntries : Nat → Bool → Compose (List (Node × Node))
  | 0, _ => failure
  | fuel + 1, first => do
    if ← take? .flowMappingEnd then return []
    else
      if !first then expect .flowEntry
      if ← take? .key then
        let key ← nodeBefore [.value, .flowEntry, .flowMappingEnd] (node fuel false false)
        let value ←
          if ← take? .value then nodeBefore [.flowEntry, .flowMappingEnd] (node fuel false false)
          else pure Node.empty
        return (key, value) :: (← flowEntries fuel false)
      else if ← take? .flowMappingEnd then return []
      else
        let key ← node fuel false false
        return (key, .empty) :: (← flowEntries fuel false)

end

/-! ## Documents -/

/-- The directives before a document. At most one gives the version, which is 1.1 or 1.2, and
none declares a handle again. -/
def directives : Nat → Bool → Compose Unit
  | 0, _ => failure
  | fuel + 1, versioned => do
    match ← peek with
    | some (.versionDirective major minor) =>
      if versioned || major ≠ 1 || !(minor = 1 || minor = 2) then failure
      skip
      directives fuel true
    | some (.tagDirective handle lead) =>
      if ((← get).handles.lookup handle).isSome then failure
      skip
      modify fun c => { c with handles := (handle, lead) :: c.handles }
      directives fuel versioned
    | _ => return

def defaultHandles : List (String × String) := [("!", "!"), ("!!", "tag:yaml.org,2002:")]

/-- What may come before the root of the first document. -/
def opening : Compose Unit := do
  match ← peek with
  | some (.versionDirective _ _) | some (.tagDirective _ _) | some .documentStart =>
    directives ((← get).tokens.length + 1) false
    expect .documentStart
  | some _ => pure ()
  | none => failure
  modify fun c => { c with handles := c.handles ++ defaultHandles }

/-- The root of a document; after an explicit start it may be empty. -/
def root (explicit : Bool) : Compose Node := do
  let fuel := 4 * (← get).tokens.length + 4
  match ← peek with
  | none | some .documentEnd | some .documentStart | some (.versionDirective _ _)
  | some (.tagDirective _ _) => if explicit then return .empty else failure
  | some _ => node fuel true false

end Compose

structure Document where
  root : Node
  anchored : List Anchored := []
  deriving Repr

namespace Document

/-- The node under that number: of several, the one that starts last. -/
def anchored? (d : Document) (id : Nat) : Option Node :=
  let candidates := d.anchored.filter (·.anchor = id)
  (candidates.find? fun a => candidates.all (·.start ≤ a.start)).map (·.node)

def resolve (d : Document) : Node → Option Node
  | .mention id => d.anchored? id
  | n => some n

def ofTokens (tokens : List Token) : Option Document :=
  let explicit :=
    match tokens with
    | .versionDirective _ _ :: _ | .tagDirective _ _ :: _ | .documentStart :: _ => true
    | _ => false
  let read : Compose Node := do
    Compose.opening
    Compose.root explicit
  match read.run { tokens } with
  | none => none
  | some (root, c) =>
    if c.tokens.all (· = .documentEnd) then some { root, anchored := c.anchored } else none

def parse (text : String) : Option Document := (tokens? text).bind ofTokens

end Document
end Yaml
end Conveyor
