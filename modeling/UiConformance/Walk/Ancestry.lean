import UiConformance.Walk.Draft

/-!
# Ancestry

The chain of parents of the selected element, the nearest first. It ends at the root, at a call
that fails, or where a handle would occur a second time.
-/

namespace UiConformance

variable {H : Type} [DecidableEq H]

/-- Follows parents from `current`, after the ancestors in `found`. -/
def climb (P : Platform H) (selected : H) : Nat → List H → H → List H × Array Notice
  | 0, found, _ => (found, #[])
  | steps + 1, found, current =>
    match P.navigate .parent current with
    | .error cause => (found, #[.callFailed .parent cause])
    | .ok none => (found, #[])
    | .ok (some parent) =>
      if parent = selected ∨ parent ∈ found then (found, #[.ancestryCycle (found.length + 1)])
      else climb P selected steps (found ++ [parent]) parent

/-- The ancestors of an element and what was noticed. The call that finds the end of a chain is one
more than its length. -/
def ancestry (P : Platform H) (selected : H) : List H × Array Notice :=
  climb P selected (P.height + 1) [] selected

namespace Outline

/-- Adds ancestors above a child, with identifiers downward from `id`; the position of the last. -/
def addAncestors : List H → Nat → Int → Outline H → Nat × Outline H
  | [], child, _, o => (child, o)
  | h :: hs, child, id, o =>
    let index := o.size
    addAncestors hs index (id - 1) ((o.add h id).link index child)

end Outline

end UiConformance
