import UiConformance.Property.Value

/-!
# Element nodes

One element of an inspected tree. Parent and children are positions in the tree that holds the
element. A fresh element has no properties at all, which is not the same as an empty bag: the bag
appears when the element is populated.
-/

namespace UiConformance

structure ElementNode where
  id : Int
  controlType : ControlType := ⟨0⟩
  patterns : List PatternId := []
  properties : Option PropertyBag := none
  parent : Option Nat := none
  children : Array Nat := #[]

namespace ElementNode

instance : Inhabited ElementNode := ⟨{ id := 0 }⟩

def withPattern (n : ElementNode) (p : PatternId) : ElementNode :=
  { n with patterns := n.patterns ++ [p] }

def withProperty (n : ElementNode) (p : PropertyId) (v : PropertyValue) : ElementNode :=
  { n with properties := some ((n.properties.getD .empty).insert p v) }

def isPopulated (n : ElementNode) : Bool := n.properties.isSome

/-- Installs what was read for the element. -/
def populate (n : ElementNode) (controlType : ControlType) (patterns : List PatternId)
    (properties : PropertyBag) : ElementNode :=
  { n with controlType, patterns, properties := some properties }

def hasPattern (n : ElementNode) (p : PatternId) : Bool := n.patterns.contains p

def property? (n : ElementNode) (p : PropertyId) : Option PropertyValue :=
  n.properties.bind (·.get? p)

/-- The Name property, when it is a text. -/
def name? (n : ElementNode) : Option String :=
  (n.property? .name).bind PropertyValue.asText?

end ElementNode

end UiConformance
