import UiConformance.OrderedMap
import UiConformance.Rule.Basic

/-!
# Rule registry

The table of registered rules, accepted only where every entry has its required metadata and no
identifier occurs twice. The error names the first entry that breaks this; an entry that is both
incomplete and a duplicate is incomplete. The pass that checks the entries makes an index of their
places, through which they are found.
-/

namespace UiConformance

/-- Metadata and how to build the rule from it. -/
structure Registration where
  metadata : RuleMetadata
  build : RuleMetadata → Rule

def Registration.id (r : Registration) : String := r.metadata.id

inductive RegistryError
  | duplicateRule (id : String)
  | missingMetadata (index : Nat) (id : String) (fields : List MetadataField)
  deriving DecidableEq, Repr

def RegistryError.message : RegistryError → String
  | duplicateRule id => s!"Duplicate rule id '{id}'"
  | missingMetadata index id fields =>
    let names := ", ".intercalate (fields.map MetadataField.text)
    s!"Rule registration #{index} ('{id}') is missing required metadata: {names}"

/-- Places by identifier, put into an index one after another from `i` on. -/
def places (i : Nat) (index : OrderedMap String Nat) : List Registration → OrderedMap String Nat
  | [] => index
  | r :: rs => places (i + 1) (index.insert r.id i) rs

structure Registry where
  registrations : List Registration
  index : OrderedMap String Nat
  index_eq : index = places 0 .empty registrations

namespace Registry

/-- The registry of entries that are in order. -/
def of (rs : List Registration) : Registry := ⟨rs, places 0 .empty rs, rfl⟩

@[simp]
theorem registrations_of (rs : List Registration) : (of rs).registrations = rs := rfl

/-- Puts the places of entries into an index, from `i` on and up to the first fault. -/
def enter (i : Nat) (index : OrderedMap String Nat) :
    List Registration → Except RegistryError (OrderedMap String Nat)
  | [] => .ok index
  | r :: rs =>
    if r.metadata.missing ≠ [] then .error (.missingMetadata i r.id r.metadata.missing)
    else if (index.get? r.id).isSome then .error (.duplicateRule r.id)
    else enter (i + 1) (index.insert r.id i) rs

theorem eq_places_of_enter {rs : List Registration} {i : Nat} {index full : OrderedMap String Nat}
    (h : enter i index rs = .ok full) : full = places i index rs := by
  induction rs generalizing i index with
  | nil => exact (Except.ok.inj h).symm
  | cons r rs ih =>
    unfold enter at h
    split at h
    · cases h
    · split at h
      · cases h
      · exact ih h

def ofList (rs : List Registration) : Except RegistryError Registry :=
  match h : enter 0 .empty rs with
  | .error e => .error e
  | .ok index => .ok ⟨rs, index, eq_places_of_enter h⟩

def size (g : Registry) : Nat := g.registrations.length

def registration? (g : Registry) (id : String) : Option Registration :=
  (g.index.get? id).bind fun i => g.registrations[i]?

/-- The identifiers in the order of registration. -/
def ids (g : Registry) : List String := g.registrations.map Registration.id

end Registry

end UiConformance
