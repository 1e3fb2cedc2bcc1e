import UiConformance.Platform

/-!
# Scripted platforms

A platform whose answers are written down: who the children of a handle are, and where its parent
and its next sibling differ from what follows from that. Nothing has to fit together, and any call
may be made to fail, so scripts show what a walk makes of a platform that misbehaves.
-/

namespace UiConformance

structure Script where
  children : List (Int × List Int) := []
  /-- Parents other than the first handle that has the handle as a child. -/
  parents : List (Int × Option Int) := []
  /-- Next siblings other than the following child of the parent. -/
  next : List (Int × Option Int) := []
  /-- The failure of a call by its name and handle. -/
  fault : String → Int → Option PlatformError := fun _ _ => none
  /-- How many of the first readings of a handle find it busy. -/
  busy : List (Int × Nat) := []
  reading : Int → Reading := fun _ => {}

namespace Script

def look {α : Type} (es : List (Int × α)) (h : Int) : Option α :=
  (es.find? fun e => e.1 == h).map (·.2)

def childrenOf (s : Script) (h : Int) : List Int := (look s.children h).getD []

def parentOf (s : Script) (h : Int) : Option Int :=
  (look s.parents h).getD ((s.children.find? fun e => e.2.contains h).map (·.1))

/-- What follows the first occurrence of a handle. -/
def following (h : Int) (hs : List Int) : Option Int := (hs.dropWhile (· != h))[1]?

def siblingAfter (s : Script) (h : Int) : Option Int :=
  (look s.next h).getD ((s.parentOf h).bind fun p => following h (s.childrenOf p))

def navigate (s : Script) (n : Navigation) (h : Int) : Except PlatformError (Option Int) :=
  match s.fault n.text h, n with
  | some e, _ => .error e
  | none, .parent => .ok (s.parentOf h)
  | none, .firstChild => .ok (s.childrenOf h).head?
  | none, .nextSibling => .ok (s.siblingAfter h)

def read (s : Script) (past : List Int) (h : Int) : Except PlatformError Reading :=
  match s.fault "snapshot" h with
  | some e => .error e
  | none =>
    if past.count h < (look s.busy h).getD 0 then .error (.callFailed "snapshot" "busy")
    else .ok (s.reading h)

/-- No chain of parents without a repetition is longer than the handles that have one. -/
def platform (s : Script) : Platform Int where
  navigate := s.navigate
  read := s.read
  height := (s.children.flatMap (·.2)).length + s.parents.length

end Script

end UiConformance
