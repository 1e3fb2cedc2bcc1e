import UiConformance.Counter
import UiConformance.Element.Tree
import UiConformance.Journal

/-!
# Drafts

The tree that a walk is building. An outline pairs every element with the native handle it stands
for; a draft adds the budget, the next identifier, what was noticed on the way and which calls were
made.
-/

namespace UiConformance

structure Outline (H : Type) where
  tree : ElementTree := {}
  handles : Array H := #[]
  aligned : handles.size = tree.size := by rfl

namespace Outline

variable {H : Type}

def size (o : Outline H) : Nat := o.tree.size

/-- Adds a detached element for a handle; its position is the size before. -/
def add (o : Outline H) (h : H) (id : Int) : Outline H where
  tree := o.tree.push { id }
  handles := o.handles.push h
  aligned := by simp [o.aligned]

def link (o : Outline H) (parent child : Nat) : Outline H where
  tree := o.tree.link parent child
  handles := o.handles
  aligned := by simp [o.aligned]

def adopt (o : Outline H) (parent : Nat) (children : Array Nat) : Outline H where
  tree := o.tree.adopt parent children
  handles := o.handles
  aligned := by simp [o.aligned]

def parent? (o : Outline H) (i : Nat) : Option Nat := (o.tree.node? i).bind (·.parent)

end Outline

structure Draft (H : Type) where
  outline : Outline H
  counter : Counter
  nextId : Int := 1
  notices : Array Notice := #[]
  /-- The navigation calls so far. -/
  asked : Array (Navigation × H) := #[]

namespace Draft

variable {H : Type}

/-- A navigation call. One that fails leads nowhere and is noticed. -/
def ask (d : Draft H) (P : Platform H) (n : Navigation) (h : H) : Option H × Draft H :=
  let d := { d with asked := d.asked.push (n, h) }
  match P.navigate n h with
  | .ok next => (next, d)
  | .error cause => (none, { d with notices := d.notices.push (.callFailed n cause) })

/-- Asks the budget for one more element. -/
def tryIncrement (d : Draft H) : Bool × Draft H :=
  let (admitted, counter) := d.counter.tryIncrement
  (admitted, { d with counter })

/-- Adds an element with the next identifier; its position and the draft after. -/
def add (d : Draft H) (h : H) : Nat × Draft H :=
  (d.outline.size, { d with outline := d.outline.add h d.nextId, nextId := d.nextId + 1 })

def link (d : Draft H) (parent child : Nat) : Draft H :=
  { d with outline := d.outline.link parent child }

def adopt (d : Draft H) (parent : Nat) (children : Array Nat) : Draft H :=
  { d with outline := d.outline.adopt parent children }

def note (d : Draft H) (n : Notice) : Draft H :=
  { d with notices := d.notices.push n }

/-! ## Facts -/

variable (d : Draft H)

@[simp] theorem counter_ask (P : Platform H) (n : Navigation) (h : H) :
    (d.ask P n h).2.counter = d.counter := by
  unfold ask
  split <;> rfl

@[simp] theorem outline_ask (P : Platform H) (n : Navigation) (h : H) :
    (d.ask P n h).2.outline = d.outline := by
  unfold ask
  split <;> rfl

@[simp] theorem nextId_ask (P : Platform H) (n : Navigation) (h : H) :
    (d.ask P n h).2.nextId = d.nextId := by
  unfold ask
  split <;> rfl

@[simp] theorem asked_ask (P : Platform H) (n : Navigation) (h : H) :
    (d.ask P n h).2.asked = d.asked.push (n, h) := by
  unfold ask
  split <;> rfl

theorem ask_fst (P : Platform H) (n : Navigation) (h : H) : (d.ask P n h).1 = P.reach? n h := by
  cases hn : P.navigate n h <;> simp [ask, Platform.reach?, hn]

@[simp] theorem counter_add (h : H) : (d.add h).2.counter = d.counter := rfl

@[simp] theorem counter_link (p c : Nat) : (d.link p c).counter = d.counter := rfl

end Draft

end UiConformance
