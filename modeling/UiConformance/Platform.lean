import UiConformance.Property.Value

/-!
# Platforms

The boundary to the accessibility platform: navigation between native elements, and a reading of
one element's control type, patterns and properties. Every call may fail. Handles that are equal
mean the same element. What a reading answers may depend on the readings made before it.
-/

namespace UiConformance

inductive PlatformError
  | notAvailable (handle : String)
  | callFailed (operation message : String)
  deriving DecidableEq, Repr

def PlatformError.message : PlatformError → String
  | notAvailable handle => s!"Element is no longer available: {handle}"
  | callFailed operation message => s!"{operation} failed: {message}"

/-- What was read of one element. -/
structure Reading where
  controlType : ControlType := ⟨0⟩
  patterns : List PatternId := []
  properties : PropertyBag := .empty

inductive Navigation
  | parent
  | firstChild
  | nextSibling
  deriving DecidableEq, Repr

def Navigation.text : Navigation → String
  | parent => "parent"
  | firstChild => "first_child"
  | nextSibling => "next_sibling"

def Navigation.ofText? (s : String) : Option Navigation :=
  [parent, firstChild, nextSibling].find? fun n => n.text == s

structure Platform (H : Type) where
  navigate : Navigation → H → Except PlatformError (Option H)
  /-- A reading, given the handles read before, the latest first. -/
  read : List H → H → Except PlatformError Reading
  /-- The number of steps within which every chain of parents without a repetition ends; no chain
  is followed further. -/
  height : Nat

namespace Platform

variable {H : Type}

/-- The element reached, if the call succeeds and there is one. -/
def reach? (P : Platform H) (n : Navigation) (h : H) : Option H :=
  match P.navigate n h with
  | .ok next => next
  | .error _ => none

/-- Readings that do not depend on earlier ones. -/
def Steady (P : Platform H) : Prop :=
  ∀ past past' h, P.read past h = P.read past' h

end Platform

end UiConformance
