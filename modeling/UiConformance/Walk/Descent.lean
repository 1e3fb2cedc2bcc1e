import UiConformance.Walk.Draft
import UiConformance.Walk.Steps

/-!
# Descent

The selected subtree, depth first, with identifiers in document order. The stack holds for every
open element the child that comes next. Each step either admits an element, which costs one unit of
budget, or closes an open element; so twice the remaining budget plus the depth of the stack goes
down with every step, whatever the platform answers.
-/

namespace UiConformance

/-- An open element, and the child of it that comes next. -/
structure Frame (H : Type) where
  parent : Nat
  pending : Option H

structure Descent (H : Type) where
  draft : Draft H
  stack : List (Frame H)

namespace Descent

variable {H : Type}

def measure (d : Descent H) : Nat := 2 * d.draft.counter.remaining + d.stack.length

/-- Takes the pending child of the innermost open element: it is admitted and opened, or, where the
budget refuses it, the open element is closed. -/
def step? (P : Platform H) (d : Descent H) : Option (Descent H) :=
  match d.stack with
  | [] => none
  | ⟨_, none⟩ :: rest => some { d with stack := rest }
  | ⟨parent, some h⟩ :: rest =>
    match d.draft.tryIncrement with
    | (false, draft) => some ⟨draft, rest⟩
    | (true, draft) =>
      let next := draft.ask P .nextSibling h
      let first := next.2.ask P .firstChild h
      let added := first.2.add h
      some ⟨added.2.link parent added.1, ⟨added.1, first.1⟩ :: ⟨parent, next.1⟩ :: rest⟩

def run (P : Platform H) (d : Descent H) : Descent H :=
  runSteps (step? P) d.measure d

/-! ## Facts -/

/-- Every step lowers the measure by one. -/
theorem measure_step? {P : Platform H} {d e : Descent H} (h : d.step? P = some e) :
    e.measure + 1 = d.measure := by
  unfold step? at h
  split at h
  · cases h
  · rename_i hs
    obtain rfl := Option.some.inj h
    simp [measure, hs]
    omega
  · rename_i hs
    split at h
    · rename_i ht
      obtain rfl := Option.some.inj h
      have hc := Counter.remaining_tryIncrement_of_refused (c := d.draft.counter)
        (congrArg Prod.fst ht)
      have hd := congrArg (fun t => t.2.counter.remaining) ht
      simp only [Draft.tryIncrement] at hd
      simp only [measure, hs, List.length_cons]
      omega
    · rename_i ht
      obtain rfl := Option.some.inj h
      have hc := Counter.remaining_tryIncrement (c := d.draft.counter) (congrArg Prod.fst ht)
      have hd := congrArg (fun t => t.2.counter.remaining) ht
      simp only [Draft.tryIncrement] at hd
      simp only [measure, hs, List.length_cons, Draft.counter_link, Draft.counter_add,
        Draft.counter_ask]
      omega

/-- A run ends with every element closed. -/
theorem stack_run (P : Platform H) (d : Descent H) : (d.run P).stack = [] := by
  have h := step?_runSteps (step? P) measure
    (fun s t hs => by have := measure_step? hs; omega) (Nat.le_refl d.measure)
  change step? P (d.run P) = none at h
  unfold step? at h
  split at h
  · assumption
  · cases h
  · split at h <;> cases h

end Descent

def Draft.addSubtree {H : Type} (d : Draft H) (P : Platform H) (root : Nat) : Draft H :=
  match d.outline.handles[root]? with
  | none => d
  | some h =>
    let (first, d) := d.ask P .firstChild h
    (Descent.run P ⟨d, [⟨root, first⟩]⟩).draft

end UiConformance
