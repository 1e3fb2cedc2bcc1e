import UiConformance.Document.Format
import UiConformance.Snapshot.Description

/-!
# Reading snapshot descriptions

A node is a record of a control type and, where they are not empty, patterns, properties and
children.
-/

namespace UiConformance

/-- What is known of a node while it is read. -/
structure NodeParts where
  description : NodeDescription := { controlType := "" }
  children : List (Rose NodeDescription) := []

namespace NodeParts

def toRose (p : NodeParts) : Rose NodeDescription := .node p.description p.children

def withControlType (p : NodeParts) (controlType : String) : NodeParts :=
  { p with description := { p.description with controlType } }

def withPatterns (p : NodeParts) (patterns : List String) : NodeParts :=
  { p with description := { p.description with patterns } }

def withProperties (p : NodeParts) (properties : OrderedMap String PropertyValue) : NodeParts :=
  { p with description := { p.description with properties } }

def withChildren (p : NodeParts) (children : List (Rose NodeDescription)) : NodeParts :=
  { p with children }

end NodeParts

namespace NodeDescription

open DocumentFormat RecordField

variable {R : Type → Type} [DocumentFormat R]

/-- A node with all that is below it. -/
def tree : R (Rose NodeDescription) :=
  nested fun child =>
    NodeParts.toRose <$> record "SnapshotNode"
      [mandatory "control_type" text NodeParts.withControlType,
       optional "patterns" (list text) NodeParts.withPatterns,
       optional "properties" (orderedMap propertyValue) NodeParts.withProperties,
       optional "children" (list child) NodeParts.withChildren]
      {}

end NodeDescription

end UiConformance
