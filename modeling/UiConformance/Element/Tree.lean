import UiConformance.Element.Node

/-!
# Element trees

The elements of one walk, in the order in which they were added. Positions name the elements; the
operations that link them leave a tree alone where a position lies outside it.
-/

namespace UiConformance

structure ElementTree where
  nodes : Array ElementNode := #[]

namespace ElementTree

instance : Inhabited ElementTree := ⟨{}⟩

def size (t : ElementTree) : Nat := t.nodes.size

def isEmpty (t : ElementTree) : Bool := t.nodes.isEmpty

def node? (t : ElementTree) (i : Nat) : Option ElementNode := t.nodes[i]?

/-- Adds a detached element; its position is the size of the tree before. -/
def push (t : ElementTree) (n : ElementNode) : ElementTree := ⟨t.nodes.push n⟩

/-- Changes one element in place. -/
def modify (t : ElementTree) (i : Nat) (f : ElementNode → ElementNode) : ElementTree :=
  ⟨t.nodes.modify i f⟩

/-- Appends an element to the children of another. A former parent keeps it in its list. -/
def link (t : ElementTree) (parent child : Nat) : ElementTree :=
  (t.modify child fun n => { n with parent := some parent }).modify parent fun n =>
    { n with children := n.children.push child }

def pushChild (t : ElementTree) (parent : Nat) (n : ElementNode) : ElementTree :=
  (t.push n).link parent t.size

/-- Replaces the children of an element. Children that are left out keep their parent. -/
def adopt (t : ElementTree) (parent : Nat) (children : Array Nat) : ElementTree :=
  (children.foldl (fun t c => t.modify c fun n => { n with parent := some parent }) t).modify parent
    fun n => { n with children }

/-- The position of the first element with the identifier. -/
def find? (t : ElementTree) (id : Int) : Option Nat :=
  t.nodes.findIdx? fun n => n.id == id

/-! ## Facts -/

@[simp] theorem size_push (t : ElementTree) (n : ElementNode) : (t.push n).size = t.size + 1 := by
  simp [push, size]

@[simp] theorem size_modify (t : ElementTree) (i : Nat) (f : ElementNode → ElementNode) :
    (t.modify i f).size = t.size := by
  simp [modify, size]

@[simp] theorem size_link (t : ElementTree) (p c : Nat) : (t.link p c).size = t.size := by
  simp [link]

@[simp] theorem size_adopt (t : ElementTree) (p : Nat) (cs : Array Nat) :
    (t.adopt p cs).size = t.size := by
  rw [adopt, size_modify, ← Array.foldl_toList]
  induction cs.toList generalizing t with
  | nil => rfl
  | cons c cs ih => rw [List.foldl_cons, ih, size_modify]

@[simp] theorem node?_push (t : ElementTree) (n : ElementNode) (i : Nat) :
    (t.push n).node? i = if i = t.size then some n else t.node? i := by
  simp only [push, node?, size, Array.getElem?_push]
  rfl

@[simp] theorem node?_modify (t : ElementTree) (i j : Nat) (f : ElementNode → ElementNode) :
    (t.modify i f).node? j = if i = j then (t.node? j).map f else t.node? j := by
  simp [modify, node?, Array.getElem?_modify]

end ElementTree

/-- An element of a tree: a position inside it. -/
structure Element where
  tree : ElementTree
  index : Nat
  inside : index < tree.size

namespace Element

def node (e : Element) : ElementNode := have := e.inside; e.tree.nodes[e.index]

def id (e : Element) : Int := e.node.id

def controlType (e : Element) : ControlType := e.node.controlType

def hasPattern (e : Element) (p : PatternId) : Bool := e.node.hasPattern p

def property? (e : Element) (p : PropertyId) : Option PropertyValue := e.node.property? p

def name? (e : Element) : Option String := e.node.name?

/-- The element at a position of the same tree. -/
def at? (e : Element) (i : Nat) : Option Element :=
  if h : i < e.tree.size then some ⟨e.tree, i, h⟩ else none

def parent? (e : Element) : Option Element := e.node.parent.bind e.at?

def children (e : Element) : List Element := e.node.children.toList.filterMap e.at?

def text (e : Element) : String :=
  let children := e.node.children.size
  s!"ElementRef \x7b unique_id: {e.id}, control_type: ControlTypeId({e.controlType.code.toInt}), " ++
    s!"children: {children} \x7d"

end Element

namespace ElementTree

def element? (t : ElementTree) (i : Nat) : Option Element :=
  if h : i < t.size then some ⟨t, i, h⟩ else none

/-- All elements in the order in which they were added. -/
def elements (t : ElementTree) : List Element :=
  (List.range t.size).filterMap t.element?

end ElementTree

end UiConformance
