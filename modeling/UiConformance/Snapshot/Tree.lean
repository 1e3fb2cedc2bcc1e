import UiConformance.Platform
import UiConformance.Rose

/-!
# Snapshot trees

A platform held in memory. The nodes of a nested tree of readings are numbered in document order,
and each entry records its parent and its children by number. Selectors name a node by its
AutomationId or by the child positions on the way to it.
-/

namespace UiConformance

structure SnapshotEntry where
  reading : Reading
  parent : Option Nat
  children : List Nat

structure SnapshotTree where
  entries : Array SnapshotEntry

structure SnapshotHandle where
  number : Nat
  deriving DecidableEq, Repr

def SnapshotHandle.text (h : SnapshotHandle) : String := s!"SnapshotHandle({h.number})"

namespace SnapshotTree

/-- The numbers of sibling trees, the first of which is `start`. -/
def siblingNumbers (start : Nat) : List (Rose Reading) → List Nat
  | [] => []
  | t :: ts => start :: siblingNumbers (start + t.size) ts

mutual

/-- The entries of a tree whose root has the number `start`. -/
def flatten (parent : Option Nat) (start : Nat) : Rose Reading → List SnapshotEntry
  | .node reading ts =>
    ⟨reading, parent, siblingNumbers (start + 1) ts⟩ :: flattenForest (some start) (start + 1) ts

def flattenForest (parent : Option Nat) (start : Nat) : List (Rose Reading) → List SnapshotEntry
  | [] => []
  | t :: ts => flatten parent start t ++ flattenForest parent (start + t.size) ts

end

def ofRose (t : Rose Reading) : SnapshotTree := ⟨(flatten none 0 t).toArray⟩

def size (s : SnapshotTree) : Nat := s.entries.size

def isEmpty (s : SnapshotTree) : Bool := s.entries.isEmpty

def root (_ : SnapshotTree) : SnapshotHandle := ⟨0⟩

/-! ## As a platform -/

def entry (s : SnapshotTree) (h : SnapshotHandle) : Except PlatformError SnapshotEntry :=
  match s.entries[h.number]? with
  | some e => .ok e
  | none => .error (.notAvailable h.text)

/-- What follows the first occurrence of a number in a list. -/
def successor? (n : Nat) : List Nat → Option Nat
  | [] => none
  | m :: ms => if m = n then ms.head? else successor? n ms

def navigate (s : SnapshotTree) : Navigation → SnapshotHandle →
    Except PlatformError (Option SnapshotHandle)
  | .parent, h => (s.entry h).map fun e => e.parent.map SnapshotHandle.mk
  | .firstChild, h => (s.entry h).map fun e => e.children.head?.map SnapshotHandle.mk
  | .nextSibling, h => do
    match (← s.entry h).parent with
    | none => return none
    | some p => return (successor? h.number (← s.entry ⟨p⟩).children).map SnapshotHandle.mk

def platform (s : SnapshotTree) : Platform SnapshotHandle where
  navigate := s.navigate
  read := fun _ h => (s.entry h).map (·.reading)
  height := s.size

/-! ## Selectors -/

def hasAutomationId (e : SnapshotEntry) (id : String) : Bool :=
  (e.reading.properties.get? .automationId).bind PropertyValue.asText? == some id

/-- The first node with the AutomationId, searched depth first down to the given depth. -/
def findAutomationId (s : SnapshotTree) (id : String) : Nat → Nat → Option Nat
  | 0, _ => none
  | depth + 1, i =>
    match s.entries[i]? with
    | none => none
    | some e => if hasAutomationId e id then some i else e.children.findSome? (s.findAutomationId id depth)

/-- Follows child positions from a node. -/
def follow (s : SnapshotTree) (i : Nat) : List (List Char) → Option Nat
  | [] => some i
  | part :: parts => do
    let position ← Text.readWord64 part
    let e ← s.entries[i]?
    let child ← e.children[position]?
    s.follow child parts

/-- The maximal runs of characters between slashes. -/
def pathParts (cs : List Char) : List (List Char) :=
  (cs.splitOn '/').filter fun part => !part.isEmpty

/-- `#id` selects the first node with that AutomationId, `0/2/1` the node reached by these child
positions, and nothing the root. No branch is deeper than the number of nodes. -/
def select (s : SnapshotTree) (selector : String) : Option SnapshotHandle :=
  match Text.trim selector.toList with
  | '#' :: id => (s.findAutomationId (String.ofList id) s.size 0).map SnapshotHandle.mk
  | cs => do
    let i ← s.follow 0 (pathParts cs)
    if i < s.size then some ⟨i⟩ else none

end SnapshotTree

end UiConformance
