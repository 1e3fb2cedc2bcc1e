import UiConformance.Document.Format
import UiConformance.Yaml.CoreSchema

/-!
# Reading YAML into typed values

Where a type is wanted, a scalar is read as that type whatever it would stand for otherwise: any
scalar is a text. An empty plain scalar is also an empty list, map or record. Aliases are followed,
but not more often in total than a hundred times the size of the document, so that a small document
cannot stand for an enormous one; what is ignored is not followed. Lists and maps may nest only so
deep.
-/

namespace UiConformance.Yaml

def depthLimit : Nat := 128

/-- Access to a document; the state is how many aliases may still be followed. -/
abbrev Access := ReaderT Document (StateT Nat Option)

/-- Reads a node inside which lists and maps may still nest as deep as the number says. -/
def Reader (α : Type) := Nat → Node → Access α

namespace Reader

variable {α σ : Type}

/-- The node itself, or the one that an alias names. -/
def target : Node → Access Node
  | .alias anchor => do
    match ← get with
    | 0 => failure
    | n + 1 =>
      set n
      match (← read).anchored.find? fun a => a.1 == anchor with
      | some a => return a.2
      | none => failure
  | node => return node

/-! ## Single values -/

def text : Reader String := fun _ node => do
  match ← target node with
  | .scalar s => return s.text
  | _ => failure

/-- A scalar that is read by its characters: a plain one, or a literal block with the tag of the
type. -/
def word (tag : String) (parse : String → Option α) : Reader α := fun _ node => do
  match ← target node with
  | .scalar s =>
    if s.plain || s.literal && s.tag == some (.language tag) then
      match parse s.text with
      | some a => return a
      | none => failure
    else failure
  | _ => failure

def bool : Reader Bool := word "bool" boolOf?

def int32 : Reader Int :=
  word "int" fun s => do
    let i := (← readWhole? s.toList).value
    if -(Text.int32Max : Int) - 1 ≤ i ∧ i ≤ Text.int32Max then some i else none

def word64 : Reader Nat :=
  word "int" fun s => do
    let w ← readWhole? s.toList
    if !w.negative && fits w 64 then some w.magnitude else none

/-- One of several names: as a text, or as the tag of null. -/
def variant (choices : List (String × α)) : Reader α := fun _ node => do
  match ← target node with
  | .scalar s =>
    let isNull := s.plain && (s.text.isEmpty || isNullWord s.text)
    let name ← match s.tag.bind Tag.localName? with
      | none => pure s.text
      | some name => if isNull then pure name else failure
    match choices.find? fun c => c.1 == name with
    | some c => return c.2
    | none => failure
  | _ => failure

/-! ## Lists, maps and records -/

/-- A plain scalar without text, which is what a node left out counts as. -/
def isVacant : Node → Bool
  | .scalar s => s.plain && s.text.isEmpty
  | _ => false

def list (item : Reader α) : Reader (List α) := fun depth node => do
  match ← target node, depth with
  | .list _ ns, depth + 1 => ns.mapM (item depth)
  | node, _ => if isVacant node then return [] else failure

def entriesOf (depth : Nat) (node : Node) : Access (Nat × List (Node × Node)) := do
  match ← target node, depth with
  | .map _ es, depth + 1 => return (depth, es)
  | node, depth => if isVacant node then return (depth, []) else failure

def orderedMap (value : Reader α) : Reader (OrderedMap String α) := fun depth node => do
  let (depth, es) ← entriesOf depth node
  return .ofList (← es.mapM fun e => do return (← text depth e.1, ← value depth e.2))

/-- The fields of a record. `seen` names those read; none may be given twice, and entries that are
no fields are ignored. -/
def fieldsOf (fields : List (RecordField Reader σ)) (depth : Nat) :
    List String → σ → List (Node × Node) → Access σ
  | seen, s, [] => if fields.all fun f => !f.required || seen.contains f.name then return s else failure
  | seen, s, (key, node) :: es => do
    let name ← text depth key
    match fields.find? fun f => f.name == name with
    | none => fieldsOf fields depth seen s es
    | some f =>
      if seen.contains name then failure
      else fieldsOf fields depth (name :: seen) (← f.read s depth node) es

def record (fields : List (RecordField Reader σ)) (start : σ) : Reader σ := fun depth node => do
  let (depth, es) ← entriesOf depth node
  fieldsOf fields depth [] start es

/-! ## Data -/

def ofOption (a : Option α) : Access α :=
  match a with
  | some a => pure a
  | none => failure

/-- The node has a tag of the document. -/
def isNamed (tag : Option Tag) : Bool := (tag.bind Tag.localName?).isSome

/-- Any node, inside which lists and maps may nest as deep as the number says. -/
def datum : Reader Datum
  | 0, node => do
    match ← target node with
    | .scalar s => ofOption s.datum?
    | _ => failure
  | depth + 1, node => do
    match ← target node with
    | .scalar s => ofOption s.datum?
    | .list tag ns => if isNamed tag then failure else return .list (← ns.mapM (datum depth))
    | .map tag es =>
      if isNamed tag then failure
      else return .map (← es.mapM fun e => do return (← datum depth e.1, ← datum depth e.2))
    | .alias _ => failure

def propertyValue : Reader PropertyValue := fun depth node => do
  ofOption (PropertyValue.ofDatum? (← datum depth node))

/-! ## As a format -/

/-- Where a value holds values of its own kind, at most `steps` of them inside one another. -/
def nestedIn (step : Reader α → Reader α) : Nat → Reader α
  | 0 => fun _ _ => failure
  | steps + 1 => step (nestedIn step steps)

instance : Functor Reader where
  map f reader := fun depth node => f <$> reader depth node

instance : DocumentFormat Reader where
  bool := bool
  text := text
  int32 := int32
  word64 := word64
  propertyValue := propertyValue
  variant := variant
  list := list
  orderedMap := orderedMap
  record _ := record
  nested step := fun depth => nestedIn step (depth + 1) depth

end Reader

/-- Reads a whole document; a text without one counts as a node left out. -/
def read {α : Type} (reader : Reader α) (s : String) : Option α := do
  let document : Document := match ← Document.ofText? s with
    | some d => d
    | none => { root := .empty, anchored := [], size := 1 }
  let (a, _) ← ((reader depthLimit document.root).run document).run (100 * document.size)
  return a

end UiConformance.Yaml
