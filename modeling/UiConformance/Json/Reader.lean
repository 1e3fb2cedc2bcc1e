import UiConformance.Document.Format
import UiConformance.Document.Mismatch
import UiConformance.Json.Event

/-!
# Reading JSON into typed values

Readers take the events of the value they want and report the first problem in the text: either the
text is not JSON from there on, or a value does not have the wanted shape. Lists and maps may nest
only so deep; the depth counts what encloses a value that is read, while a value that is skipped may
nest at will.
-/

namespace UiConformance.Json

inductive Error
  /-- The text is not JSON. -/
  | malformed
  | mismatch (m : Mismatch)
  deriving Repr

/-- The depth of nesting that the outermost value may have, plus one. -/
def depthLimit : Nat := 128

/-- Reads a value inside lists and maps that leave the given depth; the events that follow. -/
def Reader (α : Type) := Nat → List Event → Except Error (α × List Event)

namespace Reader

variable {α β σ : Type}

/-! ## Single values -/

def unexpected (wanted : String) : List Event → Error
  | .null :: _ => .mismatch (.wrongKind .null wanted)
  | .bool b :: _ => .mismatch (.wrongKind (.bool b) wanted)
  | .number (some (.int i)) :: _ => .mismatch (.wrongKind (.int i) wanted)
  | .number (some (.double x)) :: _ => .mismatch (.wrongKind (.double x) wanted)
  | .text (some s) :: _ => .mismatch (.wrongKind (.text s) wanted)
  | .openList :: _ => .mismatch (.wrongKind .list wanted)
  | .openMap :: _ => .mismatch (.wrongKind .map wanted)
  | _ => .malformed

def bool : Reader Bool
  | _, .bool b :: rest => .ok (b, rest)
  | _, events => .error (unexpected "a boolean" events)

def text : Reader String
  | _, .text (some s) :: rest => .ok (s, rest)
  | _, events => .error (unexpected "a string" events)

def int (wanted : String) (low high : Int) : Reader Int
  | _, .number (some (.int i)) :: rest =>
    if low ≤ i ∧ i ≤ high then .ok (i, rest) else .error (.mismatch (.outOfRange (.int i) wanted))
  | _, events => .error (unexpected wanted events)

/-- One of several names: as a text, or as the only key of a map to null. -/
def variant (choices : List (String × α)) : Reader α := fun depth events =>
  let choose (s : String) : Except Error α := (Mismatch.choose choices s).mapError .mismatch
  match depth, events with
  | _, .text (some s) :: rest => do return (← choose s, rest)
  | _ + 2, .openMap :: .key (some s) :: rest => do
    let a ← choose s
    match rest with
    | .null :: .closeMap :: rest => return (a, rest)
    | .null :: _ => throw .malformed
    | events => throw (unexpected "unit" events)
  | _ + 2, .openMap :: rest => .error (unexpected "variant identifier" rest)
  | _, _ => .error .malformed

/-! ## Lists and maps -/

/-- The items up to the end of a list, at most `steps` of them. -/
def items (item : Reader α) (depth : Nat) : Nat → List Event → Except Error (List α × List Event)
  | 0, _ => .error .malformed
  | steps + 1, events =>
    match events with
    | .closeList :: rest => .ok ([], rest)
    | events => do
      let (a, rest) ← item depth events
      let (as, rest) ← items item depth steps rest
      return (a :: as, rest)

def list (item : Reader α) : Reader (List α)
  | depth, .openList :: rest =>
    if depth ≤ 1 then .error .malformed else items item (depth - 1) rest.length rest
  | _, events => .error (unexpected "a sequence" events)

/-- The entries up to the end of a map, at most `steps` of them. -/
def entries (value : Reader α) (depth : Nat) : Nat → List Event →
    Except Error (List (String × α) × List Event)
  | 0, _ => .error .malformed
  | steps + 1, events =>
    match events with
    | .closeMap :: rest => .ok ([], rest)
    | .key (some k) :: rest => do
      let (a, rest) ← value depth rest
      let (as, rest) ← entries value depth steps rest
      return ((k, a) :: as, rest)
    | _ => .error .malformed

/-- A map in ascending key order; of a repeated key the last value counts. -/
def orderedMap (value : Reader α) : Reader (OrderedMap String α)
  | depth, .openMap :: rest =>
    if depth ≤ 1 then .error .malformed
    else do
      let (es, rest) ← entries value (depth - 1) rest.length rest
      return (.ofList es, rest)
  | _, events => .error (unexpected "a map" events)

/-- Passes over one value that is enclosed by `nesting` more than the reader. -/
def skip : Nat → List Event → Except Error (List Event)
  | _, [] => .error .malformed
  | _, .malformed :: _ => .error .malformed
  | nesting, .key _ :: rest => skip nesting rest
  | nesting, .openList :: rest => skip (nesting + 1) rest
  | nesting, .openMap :: rest => skip (nesting + 1) rest
  | 0, .closeList :: _ => .error .malformed
  | 0, .closeMap :: _ => .error .malformed
  | nesting + 1, .closeList :: rest => if nesting = 0 then .ok rest else skip nesting rest
  | nesting + 1, .closeMap :: rest => if nesting = 0 then .ok rest else skip nesting rest
  | nesting, _ :: rest => if nesting = 0 then .ok rest else skip nesting rest

/-! ## Records -/

/-- The fields of a record written as a map, at most `steps` of them. `seen` names those read. -/
def fieldsByName (fields : List (RecordField Reader σ)) (depth : Nat) : Nat → List String → σ → List Event →
    Except Error (σ × List Event)
  | 0, _, _, _ => .error .malformed
  | steps + 1, seen, s, events =>
    match events with
    | .closeMap :: rest =>
      match fields.find? fun f => f.required && !seen.contains f.name with
      | some f => .error (.mismatch (.missingField f.name))
      | none => .ok (s, rest)
    | .key (some k) :: rest =>
      match fields.find? fun f => f.name == k with
      | none => do
        let rest ← skip 0 rest
        fieldsByName fields depth steps seen s rest
      | some f =>
        if seen.contains k then .error (.mismatch (.duplicateField k))
        else do
          let (s, rest) ← f.read s depth rest
          fieldsByName fields depth steps (k :: seen) s rest
    | _ => .error .malformed

/-- The fields of a record written as a list in their order, trailing ones left out; `place` have
been read. -/
def fieldsByPlace (wanted : String) (depth place : Nat) : List (RecordField Reader σ) → σ → List Event →
    Except Error (σ × List Event)
  | [], s, .closeList :: rest => .ok (s, rest)
  | [], _, _ => .error .malformed
  | f :: fields, s, .closeList :: rest =>
    if f.required then .error (.mismatch (.wrongLength place wanted))
    else fieldsByPlace wanted depth (place + 1) fields s (.closeList :: rest)
  | f :: fields, s, events => do
    let (s, rest) ← f.read s depth events
    fieldsByPlace wanted depth (place + 1) fields s rest

/-- A record: a map by field names, in which other keys are ignored, or a list of its fields. -/
def record (name : String) (fields : List (RecordField Reader σ)) (start : σ) : Reader σ
  | depth, .openMap :: rest =>
    if depth ≤ 1 then .error .malformed
    else fieldsByName fields (depth - 1) rest.length [] start rest
  | depth, .openList :: rest =>
    if depth ≤ 1 then .error .malformed
    else fieldsByPlace s!"struct {name} with {fields.length} elements" (depth - 1) 0 fields start rest
  | _, events => .error (unexpected s!"struct {name}" events)

/-! ## Data -/

def datum : Reader Datum
  | _, .null :: rest => .ok (.null, rest)
  | _, .bool b :: rest => .ok (.bool b, rest)
  | _, .number (some (.int i)) :: rest => .ok (.int i, rest)
  | _, .number (some (.double x)) :: rest => .ok (.double x, rest)
  | _, .text (some s) :: rest => .ok (.text s, rest)
  | depth + 2, .openList :: rest => do
    let (ds, rest) ← items (fun _ => datum (depth + 1)) (depth + 1) rest.length rest
    return (.list ds, rest)
  | depth + 2, .openMap :: rest => do
    let (es, rest) ← entries (fun _ => datum (depth + 1)) (depth + 1) rest.length rest
    return (.map (es.map fun e => (.text e.1, e.2)), rest)
  | _, _ => .error .malformed

def propertyValue : Reader PropertyValue := fun depth events => do
  let (d, rest) ← datum depth events
  match PropertyValue.ofDatum? d with
  | some v => return (v, rest)
  | none => throw (.mismatch (.noAlternative "untagged enum PropertyValue"))

/-! ## As a format -/

/-- Where a value holds values of its own kind, at most `steps` of them inside one another. -/
def nestedIn (step : Reader α → Reader α) : Nat → Reader α
  | 0 => fun _ _ => .error .malformed
  | steps + 1 => step (nestedIn step steps)

instance : Functor Reader where
  map f reader := fun depth events => (reader depth events).map fun (a, rest) => (f a, rest)

instance : DocumentFormat Reader where
  bool := bool
  text := text
  int32 := int "i32" (-(Text.int32Max : Int) - 1) Text.int32Max
  word64 := Int.toNat <$> int "usize" 0 ((Text.word64Size : Int) - 1)
  propertyValue := propertyValue
  variant := variant
  list := list
  orderedMap := orderedMap
  record := record
  nested step := fun depth => nestedIn step (depth + 1) depth

end Reader

def read {α : Type} (reader : Reader α) (s : String) : Except Error α :=
  match reader depthLimit (Event.ofText s) with
  | .error e => .error e
  | .ok (a, []) => .ok a
  | .ok _ => .error .malformed

end UiConformance.Json
