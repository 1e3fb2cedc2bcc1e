import UiConformance.Proofs.SnapshotPlatform
import UiConformance.Snapshot.Description

/-!
# Growing a snapshot

A snapshot is grown entry by entry: a node is entered before its children, and adopts each child
once that child's own descendants are there. What comes of it is the flattened tree of the readings.
-/

namespace UiConformance

open Rose

/-! ## Entries that change in place -/

section Modify

variable {α : Type} {xs : Array α} {i : Nat} {f g : α → α}

theorem modify_append_left (h : i < xs.size) (ys : Array α) :
    (xs ++ ys).modify i f = xs.modify i f ++ ys := by
  apply Array.ext_getElem?
  intro j
  simp only [Array.getElem?_modify, Array.getElem?_append, Array.size_modify]
  by_cases hj : i = j
  · subst hj
    simp [h]
  · simp [hj]

theorem modify_modify : (xs.modify i f).modify i g = xs.modify i (g ∘ f) := by
  apply Array.ext_getElem?
  intro j
  simp only [Array.getElem?_modify]
  by_cases hj : i = j <;> simp [hj]

theorem modify_push (a : α) : (xs.push a).modify xs.size f = xs.push (f a) := by
  apply Array.ext_getElem?
  intro j
  simp only [Array.getElem?_modify, Array.getElem?_push]
  by_cases hj : xs.size = j
  · simp [hj]
  · rw [if_neg hj, if_neg (Ne.symm hj), if_neg (Ne.symm hj)]

end Modify

namespace SnapshotTree

theorem foldl_adopt (ns : List Nat) (e : SnapshotEntry) :
    ns.foldl SnapshotEntry.adopt e = { e with children := e.children ++ ns } := by
  induction ns generalizing e with
  | nil => simp
  | cons n ns ih => simp [ih, SnapshotEntry.adopt]

/-! ## Trees and forests -/

mutual

/-- What is grown from a node is its flattened tree, after what is there. -/
theorem grow_eq (parent : Option Nat) (entries : Array SnapshotEntry) :
    (d : Rose NodeDescription) → grow parent entries d =
      (d.traverse NodeDescription.interpret).map fun t =>
        (entries.size, entries ++ (flatten parent entries.size t).toArray)
  | .node d ds => by
    rw [grow, Rose.traverse]
    cases d.interpret with
    | error u => rfl
    | ok reading =>
      have hforest := growForest_eq (entries.push ⟨reading, parent, []⟩) entries.size (by simp) ds
      simp only [bind, Except.bind, hforest]
      cases Rose.traverseForest NodeDescription.interpret ds with
      | error u => rfl
      | ok ts =>
        refine congrArg (fun es => Except.ok (entries.size, es)) ?_
        simp [modify_push, foldl_adopt, flatten]

/-- What is grown from children stands after what is there, where their parent has adopted them. -/
theorem growForest_eq (entries : Array SnapshotEntry) (parent : Nat) (h : parent < entries.size) :
    (ds : List (Rose NodeDescription)) → growForest parent entries ds =
      (Rose.traverseForest NodeDescription.interpret ds).map fun ts =>
        entries.modify parent ((siblingNumbers entries.size ts).foldl SnapshotEntry.adopt ·) ++
          (flattenForest (some parent) entries.size ts).toArray
  | [] => by
    rw [growForest, Rose.traverseForest]
    refine congrArg Except.ok (Array.ext_getElem? fun j => ?_)
    simp [siblingNumbers, flattenForest, Array.getElem?_modify]
  | d :: ds => by
    rw [growForest, Rose.traverseForest, grow_eq (some parent) entries d]
    cases d.traverse NodeDescription.interpret with
    | error u => rfl
    | ok t =>
      -- the first child's own descendants are there before the parent adopts it
      let grown := entries.modify parent (·.adopt entries.size) ++
        (flatten (some parent) entries.size t).toArray
      have hsize : grown.size = entries.size + t.size := by simp [grown, length_flatten]
      have hgrown : (entries ++ (flatten (some parent) entries.size t).toArray).modify parent
          (·.adopt entries.size) = grown := modify_append_left h _
      have hforest := growForest_eq grown parent (by omega) ds
      simp only [Except.map, bind, Except.bind, hgrown, hforest, hsize]
      cases Rose.traverseForest NodeDescription.interpret ds with
      | error u => rfl
      | ok ts =>
        refine congrArg Except.ok ?_
        rw [modify_append_left (by simpa using h), modify_modify, flattenForest, siblingNumbers]
        simp [Function.comp_def]

end

/-- A description becomes the flattened tree of what its nodes stand for. -/
theorem ofDescription_eq (d : Rose NodeDescription) :
    ofDescription d = (d.traverse NodeDescription.interpret).map ofRose := by
  rw [ofDescription, grow_eq]
  cases d.traverse NodeDescription.interpret with
  | error u => rfl
  | ok t => simp [Except.map, bind, Except.bind, ofRose, pure, Except.pure]

end SnapshotTree

end UiConformance
