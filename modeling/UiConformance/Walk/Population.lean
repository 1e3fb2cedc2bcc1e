import UiConformance.Walk.Draft

/-!
# Population

Readings for the elements of an outline. A parallel pass asks every handle once, in any order, and
forgets failures; then every element that is still without properties is asked in order. An element
whose last reading fails keeps its control type and gets no patterns and an empty bag.
-/

namespace UiConformance

structure Filling (H : Type) where
  tree : ElementTree
  /-- The handles read so far, the latest first. -/
  past : List H
  unpopulated : Nat := 0
  notices : Array Notice := #[]

namespace Filling

variable {H : Type}

def install (f : Filling H) (i : Nat) (r : Reading) : Filling H :=
  { f with tree := f.tree.modify i fun n => n.populate r.controlType r.patterns r.properties }

/-- Reads a handle: the reading, and the filling that remembers it was asked for. -/
def read (f : Filling H) (P : Platform H) (h : H) : Except PlatformError Reading × Filling H :=
  (P.read f.past h, { f with past := h :: f.past })

def attempt (P : Platform H) (handles : Array H) (f : Filling H) (i : Nat) : Filling H :=
  match handles[i]? with
  | none => f
  | some h =>
    match f.read P h with
    | (.ok r, f) => f.install i r
    | (.error _, f) => f

/-- Leaves an element without properties. -/
def giveUp (f : Filling H) (i : Nat) (id : Int) (cause : PlatformError) : Filling H :=
  { f with
    tree := f.tree.modify i fun n => n.populate n.controlType [] .empty
    unpopulated := f.unpopulated + 1
    notices := f.notices.push (.propertiesUnavailable id cause) }

/-- Asks for one element that has no properties yet. -/
def finish (P : Platform H) (handles : Array H) (f : Filling H) (i : Nat) : Filling H :=
  match f.tree.node? i, handles[i]? with
  | some n, some h =>
    if n.isPopulated then f
    else
      match f.read P h with
      | (.ok r, f) => f.install i r
      | (.error cause, f) => f.giveUp i n.id cause
  | _, _ => f

end Filling

/-- Reads what the outline's elements are. `order` is the order of the parallel pass, if there is
one. -/
def Outline.populate {H : Type} (o : Outline H) (P : Platform H) (past : List H)
    (order : Option (List Nat)) : Filling H :=
  let started : Filling H := { tree := o.tree, past }
  let attempted := (order.getD []).foldl (Filling.attempt P o.handles) started
  (List.range o.size).foldl (Filling.finish P o.handles) attempted

end UiConformance
