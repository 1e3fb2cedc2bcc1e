import UiConformance.Yaml.Token

/-!
# YAML nodes

The tree of a YAML document. An alias is kept as the number of its anchor, so that it may also stand
inside of what it names; the document maps these numbers to nodes. Every node that is left out
between indicators is an empty plain scalar.
-/

namespace UiConformance.Yaml

structure Scalar where
  tag : Option Tag := none
  plain : Bool := true
  /-- Written as a block whose breaks are kept. -/
  literal : Bool := false
  text : String := ""
  deriving DecidableEq, Repr

inductive Node where
  | scalar (s : Scalar)
  | list (tag : Option Tag) (items : List Node)
  | map (tag : Option Tag) (entries : List (Node × Node))
  | alias (anchor : Nat)

namespace Node

instance : Inhabited Node := ⟨scalar {}⟩

def empty : Node := scalar {}

end Node

structure Document where
  root : Node
  /-- The nodes that have anchors, by the number of the anchor. -/
  anchored : List (Nat × Node)
  /-- The number of scalars, aliases, and beginnings and ends of lists and maps. -/
  size : Nat

/-- What is known while nodes are read. -/
structure Reading where
  tokens : List Token
  /-- What the handles of tags stand for. -/
  handles : List (String × Tag) := [("!", .mark), ("!!", .languageHandle)]
  /-- The numbers of the anchors. -/
  anchors : List (String × Nat) := []
  /-- For the number of an anchor, the node that last took it, by the order in which nodes begin. -/
  holders : List (Nat × Nat) := []
  /-- Complete nodes with anchors, by the order in which nodes begin. -/
  complete : List (Nat × Node) := []
  /-- How many nodes have begun. -/
  begun : Nat := 0
  size : Nat := 0

abbrev ReadM := StateT Reading Option

namespace ReadM

def peek : ReadM (Option Token) := do return (← get).tokens.head?

def skip : ReadM Unit := modify fun r => { r with tokens := r.tokens.tail }

def take (t : Token) : ReadM Bool := do
  if (← peek) == some t then
    skip
    return true
  else return false

def count (n : Nat) : ReadM Unit := modify fun r => { r with size := r.size + n }

def emptyNode : ReadM Node := do
  count 1
  return .empty

/-! ## Anchors and tags -/

/-- Gives an anchor its number: the count of the names in use. A number that is taken anew, because
a name was used twice, changes hands. -/
def assignNumber (name : String) : ReadM Nat := do
  let r ← get
  let id := r.anchors.length
  let others := r.anchors.filter fun a => a.1 != name
  set { r with
    anchors := (name, id) :: others
    holders := (id, r.begun) :: r.holders.filter fun h => h.1 != id
    begun := r.begun + 1 }
  return r.begun

def finish (holder : Option Nat) (n : Node) : ReadM Node := do
  match holder with
  | none => return n
  | some b =>
    modify fun r => { r with complete := (b, n) :: r.complete }
    return n

def resolveTag (handle : String) (suffix : Tag) : ReadM Tag := do
  if handle.isEmpty then return suffix
  else
    match (← get).handles.find? fun h => h.1 == handle with
    | some h => return h.2.append suffix
    | none => failure

/-- An anchor and a tag before a node, in either order. -/
def properties : ReadM (Option String × Option Tag) := do
  match ← peek with
  | some (.anchor name) =>
    skip
    match ← peek with
    | some (.tag h s) =>
      skip
      return (some name, some (← resolveTag h s))
    | _ => return (some name, none)
  | some (.tag h s) =>
    skip
    let tag ← resolveTag h s
    match ← peek with
    | some (.anchor name) =>
      skip
      return (some name, some tag)
    | _ => return (none, some tag)
  | _ => return (none, none)

/-! ## Nodes -/

mutual

/-- A node. Blocks may stand here if `block`; a block list may be no further in than the map around
it if `indentless`. -/
def node : Nat → Bool → Bool → ReadM Node
  | 0, _, _ => failure
  | fuel + 1, block, indentless => do
    if let some (.alias name) ← peek then
      skip
      count 1
      match (← get).anchors.find? fun a => a.1 == name with
      | some a => return .alias a.2
      | none => failure
    else
      let (anchor, tag) ← properties
      let holder ← anchor.mapM assignNumber
      let t ← peek
      if indentless && t == some .entry then
        count 2
        finish holder (.list tag (← indentlessItems fuel))
      else
        match t with
        | some (.scalar plain literal text) =>
          skip
          count 1
          finish holder (.scalar { tag, plain, literal, text })
        | some .openFlowList =>
          skip
          count 2
          finish holder (.list tag (← flowItems fuel true))
        | some .openFlowMap =>
          skip
          count 2
          finish holder (.map tag (← flowEntries fuel true))
        | t =>
          if block && t == some .openBlockList then
            skip
            count 2
            finish holder (.list tag (← blockItems fuel))
          else if block && t == some .openBlockMap then
            skip
            count 2
            finish holder (.map tag (← blockEntries fuel))
          else if anchor.isSome || tag.isSome then
            count 1
            finish holder (.scalar { tag })
          else failure

/-- A node, or nothing before one of the given tokens. -/
def nodeUnless : Nat → List Token → Bool → Bool → ReadM Node
  | 0, _, _, _ => failure
  | fuel + 1, stops, block, indentless => do
    match ← peek with
    | some t => if stops.contains t then emptyNode else node fuel block indentless
    | none => node fuel block indentless

def blockItems : Nat → ReadM (List Node)
  | 0 => failure
  | fuel + 1 => do
    if ← take .entry then
      let n ← nodeUnless fuel [.entry, .closeBlock] true false
      return n :: (← blockItems fuel)
    else if ← take .closeBlock then return []
    else failure

def indentlessItems : Nat → ReadM (List Node)
  | 0 => failure
  | fuel + 1 => do
    if ← take .entry then
      let n ← nodeUnless fuel [.entry, .key, .value, .closeBlock] true false
      return n :: (← indentlessItems fuel)
    else return []

def blockEntries : Nat → ReadM (List (Node × Node))
  | 0 => failure
  | fuel + 1 => do
    if ← take .key then
      let k ← nodeUnless fuel [.key, .value, .closeBlock] true true
      let v ← if ← take .value then nodeUnless fuel [.key, .value, .closeBlock] true true else emptyNode
      return (k, v) :: (← blockEntries fuel)
    else if ← take .closeBlock then return []
    else failure

/-- The items of a list in brackets. A key among them begins a map of one entry. -/
def flowItems : Nat → Bool → ReadM (List Node)
  | 0, _ => failure
  | fuel + 1, first => do
    if ← take .closeFlowList then return []
    else
      let separated ← if first then pure true else take .separator
      if !separated then failure
      else if ← take .key then
        count 2
        let k ← match ← peek with
          | some .value | some .separator | some .closeFlowList => do
            skip
            emptyNode
          | _ => node fuel false false
        let v ← if ← take .value then nodeUnless fuel [.separator, .closeFlowList] false false else emptyNode
        return .map none [(k, v)] :: (← flowItems fuel false)
      else if ← take .closeFlowList then return []
      else
        let n ← node fuel false false
        return n :: (← flowItems fuel false)

def flowEntries : Nat → Bool → ReadM (List (Node × Node))
  | 0, _ => failure
  | fuel + 1, first => do
    if ← take .closeFlowMap then return []
    else
      let separated ← if first then pure true else take .separator
      if !separated then failure
      else if ← take .key then
        let k ← nodeUnless fuel [.value, .separator, .closeFlowMap] false false
        let v ← if ← take .value then nodeUnless fuel [.separator, .closeFlowMap] false false else emptyNode
        return (k, v) :: (← flowEntries fuel false)
      else if ← take .closeFlowMap then return []
      else
        let k ← node fuel false false
        let v ← emptyNode
        return (k, v) :: (← flowEntries fuel false)

end

/-! ## Documents -/

/-- Directives before a document, after `seen`: the version, which is 1.1 or 1.2, and meanings of
handles. None may be given twice. -/
def directives : Nat → List String → ReadM (List String)
  | 0, seen => return seen
  | fuel + 1, seen => do
    match ← peek with
    | some (.versionDirective major minor) =>
      skip
      if major = 1 ∧ (minor = 1 ∨ minor = 2) ∧ "" ∉ seen then directives fuel ("" :: seen) else failure
    | some (.tagDirective handle meaning) =>
      skip
      modify fun r => { r with handles := (handle, meaning) :: r.handles }
      if handle ∈ seen then failure else directives fuel (handle :: seen)
    | _ => return seen

def skipDocumentEnds : Nat → ReadM Unit
  | 0 => return
  | fuel + 1 => do
    if ← take .documentEnd then skipDocumentEnds fuel else return

def document (fuel : Nat) : ReadM (Option Node) := do
  if (← peek).isNone then return none
  else
    let directed ← directives fuel []
    let started ← take .documentStart
    if !directed.isEmpty && !started then failure
    else
      let next ← peek
      let empty := started && next.all Token.endsDocument
      let root ← if empty then emptyNode else node fuel true false
      skipDocumentEnds fuel
      if (← peek).isSome then failure else return some root

end ReadM

/-- The document of a text: nothing where the text holds none, and a failure where it is malformed or
holds several. -/
def Document.ofText? (s : String) : Option (Option Document) := do
  let tokens ← Token.scan s.toList
  let (root, r) ← (ReadM.document (4 * tokens.size + 4)).run { tokens := tokens.toList }
  let anchored := r.holders.filterMap fun (id, holder) =>
    (r.complete.find? fun c => c.1 == holder).map fun c => (id, c.2)
  return root.map fun root => { root, anchored, size := r.size }

end UiConformance.Yaml
