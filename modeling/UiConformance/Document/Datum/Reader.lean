import UiConformance.Document.Format
import UiConformance.Document.Mismatch

/-!
# Typed values from data

Data that were read before are taken for typed values. The keys of a map are texts and come in
ascending order, and of a repeated key the last value counts; a record may also be the list of its
fields.
-/

namespace UiConformance

namespace Datum

def found : Datum → Found
  | null => .null
  | bool b => .bool b
  | whole w => .int w.value
  | double x => .double x
  | text s => .text s
  | list _ => .list
  | map _ => .map

mutual

/-- How deep lists and maps nest. -/
def depth : Datum → Nat
  | list ds => depthOfItems ds + 1
  | map es => depthOfEntries es + 1
  | _ => 0

def depthOfItems : List Datum → Nat
  | [] => 0
  | d :: ds => max d.depth (depthOfItems ds)

def depthOfEntries : List (Datum × Datum) → Nat
  | [] => 0
  | (k, d) :: es => max (max k.depth d.depth) (depthOfEntries es)

end

/-- Reads a typed value from a datum. -/
def Reader (α : Type) := Datum → Except Mismatch α

namespace Reader

variable {α σ : Type}

/-! ## Single values -/

def unexpected (wanted : String) (d : Datum) : Except Mismatch α :=
  .error (.wrongKind d.found wanted)

def bool : Reader Bool
  | .bool b => .ok b
  | d => unexpected "a boolean" d

def text : Reader String
  | .text s => .ok s
  | d => unexpected "a string" d

def int (wanted : String) (low high : Int) : Reader Int
  | .whole w =>
    if low ≤ w.value ∧ w.value ≤ high then .ok w.value
    else .error (.outOfRange (.int w.value) wanted)
  | d => unexpected wanted d

def propertyValue : Reader PropertyValue := fun d =>
  match PropertyValue.ofDatum? d with
  | some v => .ok v
  | none => .error (.noAlternative "untagged enum PropertyValue")

/-! ## Lists and maps -/

def list (item : Reader α) : Reader (List α)
  | .list ds => ds.mapM item
  | d => unexpected "a sequence" d

def keyed (es : List (Datum × Datum)) : Except Mismatch (OrderedMap String Datum) := do
  return .ofList (← es.mapM fun e => do return (← text e.1, e.2))

def orderedMap (value : Reader α) : Reader (OrderedMap String α)
  | .map es => do
    return .ofList (← (← keyed es).entries.mapM fun e => do return (e.1, ← value e.2))
  | d => unexpected "a map" d

/-- One of several names: as a text, or as the only key of a map to null. -/
def variant (choices : List (String × α)) : Reader α
  | .text s => Mismatch.choose choices s
  | .map es => do
    match (← keyed es).entries with
    | [(name, d)] =>
      let a ← Mismatch.choose choices name
      match d with
      | .null => return a
      | d => unexpected "unit" d
    | _ => throw (.outOfRange .map "map with a single key")
  | d => unexpected "string or map" d

/-! ## Records -/

/-- The fields of a record by their names; entries that are no fields are ignored. -/
def fieldsByName (fields : List (RecordField Reader σ)) (start : σ) (es : List (String × Datum)) :
    Except Mismatch σ := do
  let s ← es.foldlM
    (fun s e => match fields.find? fun f => f.name == e.1 with
      | some f => f.read s e.2
      | none => .ok s)
    start
  match fields.find? fun f => f.required && !es.any fun e => e.1 == f.name with
  | some f => throw (.missingField f.name)
  | none => return s

/-- The fields of a record in their order, trailing ones left out; `place` of the `length` items have
been read. -/
def fieldsByPlace (wanted : String) (length place : Nat) :
    List (RecordField Reader σ) → σ → List Datum → Except Mismatch σ
  | [], s, [] => .ok s
  | [], _, _ :: _ => .error (.wrongLength length "fewer elements in array")
  | f :: fields, s, [] =>
    if f.required then .error (.wrongLength place wanted)
    else fieldsByPlace wanted length (place + 1) fields s []
  | f :: fields, s, d :: ds => do
    fieldsByPlace wanted length (place + 1) fields (← f.read s d) ds

def record (name : String) (fields : List (RecordField Reader σ)) (start : σ) : Reader σ
  | .map es => do fieldsByName fields start (← keyed es).entries
  | .list ds =>
    fieldsByPlace s!"struct {name} with {fields.length} elements" ds.length 0 fields start ds
  | d => unexpected s!"struct {name}" d

/-! ## As a format -/

/-- Where a value holds values of its own kind, at most `steps` of them inside one another. -/
def nestedIn (step : Reader α → Reader α) : Nat → Reader α
  | 0 => fun d => unexpected "nothing" d
  | steps + 1 => step (nestedIn step steps)

instance : Functor Reader where
  map f reader := fun d => (reader d).map f

instance : DocumentFormat Reader where
  bool := bool
  text := text
  int32 := int "i32" (-(Text.int32Max : Int) - 1) Text.int32Max
  word64 := Int.toNat <$> int "usize" 0 ((Text.word64Size : Int) - 1)
  propertyValue := propertyValue
  variant := variant
  list := list
  orderedMap := orderedMap
  record := record
  nested step := fun d => nestedIn step (d.depth + 1) d

end Reader

end Datum

end UiConformance
