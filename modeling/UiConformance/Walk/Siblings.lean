import UiConformance.Walk.Draft
import UiConformance.Walk.Steps

/-!
# Sibling context

The selected element among its siblings, which are added as leaves in the order the platform gives.
The sweep over the siblings ends where the platform names the selected element a second time or the
budget refuses an element. A parent whose children do not include the selected element gets it as
the last one.
-/

namespace UiConformance

variable {H : Type} [DecidableEq H]

structure Sweep (H : Type) where
  draft : Draft H
  /-- The positions of the siblings so far. -/
  ordered : Array Nat := #[]
  /-- The selected element is among them. -/
  seen : Bool := false
  cursor : Option H

namespace Sweep

def advance (s : Sweep H) (P : Platform H) (h : H) : Sweep H :=
  let (cursor, draft) := s.draft.ask P .nextSibling h
  { s with draft, cursor }

/-- Takes the sibling under the cursor; `index` is the position of the selected element. -/
def step? (P : Platform H) (selected : H) (index : Nat) (s : Sweep H) : Option (Sweep H) :=
  match s.cursor with
  | none => none
  | some h =>
    if h = selected then
      if s.seen then some { s with cursor := none }
      else some ({ s with ordered := s.ordered.push index, seen := true }.advance P h)
    else
      match s.draft.tryIncrement with
      | (false, draft) => some { s with draft, cursor := none }
      | (true, draft) =>
        let (i, draft) := draft.add h
        some ({ s with draft, ordered := s.ordered.push i }.advance P h)

/-- Every unit of budget pays for one step, the selected element for one, and the end for one. -/
def allowance (s : Sweep H) : Nat := s.draft.counter.remaining + 2

def run (P : Platform H) (selected : H) (index : Nat) (s : Sweep H) : Sweep H :=
  runSteps (step? P selected index) s.allowance s

/-- The children in order, the selected element last where the platform left it out. -/
def children (s : Sweep H) (index : Nat) : Array Nat :=
  if s.seen then s.ordered else s.ordered.push index

end Sweep

/-- Puts the element at `index` among its siblings. The topmost element has none. -/
def Draft.addSiblings (d : Draft H) (P : Platform H) (index : Nat) : Draft H :=
  match d.outline.parent? index with
  | none => d
  | some parent =>
    match d.outline.handles[index]?, d.outline.handles[parent]? with
    | some selected, some above =>
      let (cursor, draft) := d.ask P .firstChild above
      let s := Sweep.run P selected index { draft, cursor }
      s.draft.adopt parent (s.children index)
    | _, _ => d

end UiConformance
