import UiConformance.Snapshot.Tree

/-!
# Snapshot descriptions

A snapshot as it is written down: nodes that name their control type, patterns and properties by
text. A description is accepted whole or refused with its first unknown name, node by node in
document order, and within a node the control type before the patterns before the properties.
-/

namespace UiConformance

/-- One node as described. Property names are kept in ascending order. -/
structure NodeDescription where
  controlType : String
  patterns : List String := []
  properties : OrderedMap String PropertyValue := .empty

namespace NodeDescription

def bagOf : List (String × PropertyValue) → PropertyBag → Except UnknownIdentifier PropertyBag
  | [], bag => .ok bag
  | (name, value) :: rest, bag => do
    let p : PropertyId ← Identifier.ofText name
    bagOf rest (bag.insert p value)

/-- Reads the names of a node. Its ControlType property is its own control type, whatever the
description says. -/
def interpret (d : NodeDescription) : Except UnknownIdentifier Reading := do
  let controlType : ControlType ← Identifier.ofText d.controlType
  let patterns : List PatternId ← d.patterns.mapM Identifier.ofText
  let bag ← bagOf d.properties.entries .empty
  return { controlType, patterns,
           properties := bag.insert .controlType (.int controlType.code.toInt) }

end NodeDescription

def SnapshotEntry.adopt (e : SnapshotEntry) (child : Nat) : SnapshotEntry :=
  { e with children := e.children ++ [child] }

namespace SnapshotTree

mutual

/-- Enters a described node and then its children after the entries that are there. Gives the
node's number; the first name that cannot be read ends it. -/
def grow (parent : Option Nat) (entries : Array SnapshotEntry) :
    Rose NodeDescription → Except UnknownIdentifier (Nat × Array SnapshotEntry)
  | .node d ds => do
    let reading ← d.interpret
    let number := entries.size
    let entries ← growForest number (entries.push ⟨reading, parent, []⟩) ds
    return (number, entries)

/-- Enters children one after another, each of which the parent then adopts. -/
def growForest (parent : Nat) (entries : Array SnapshotEntry) :
    List (Rose NodeDescription) → Except UnknownIdentifier (Array SnapshotEntry)
  | [] => .ok entries
  | d :: ds => do
    let (child, entries) ← grow (some parent) entries d
    growForest parent (entries.modify parent (·.adopt child)) ds

end

def ofDescription (d : Rose NodeDescription) : Except UnknownIdentifier SnapshotTree := do
  let (_, entries) ← grow none #[] d
  return ⟨entries⟩

end SnapshotTree

end UiConformance
