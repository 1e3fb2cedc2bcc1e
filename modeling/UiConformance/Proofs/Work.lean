import UiConformance.Proofs.Ascent
import UiConformance.Walk.Walker

/-!
# Bounded work

Whatever a platform answers, each loop of a walk ends after a number of turns that is known before
it starts, and makes no more navigation calls than that. Nothing is assumed of the links: they may
run in cycles, never end, or fail. For the subtree and the siblings the number follows from what
remains of the budget, for the ancestors from the number of handles. The bounds on the calls are
reached.
-/

namespace UiConformance

variable {H : Type} [DecidableEq H]

/-- What the three loops may cost, for every budget that a phase may start with. -/
structure Platform.BoundedWork (P : Platform H) : Prop where
  subtree_ends : ∀ (d : Draft H) (root : Nat) (h : H), d.outline.handles[root]? = some h →
    ∃ e, EndsWithin (Descent.step? P) (2 * d.counter.remaining + 1) (d.opened P root h) e ∧
      d.addSubtree P root = e.draft
  subtree_frugal : ∀ (d : Draft H) (root : Nat), d.Frugal (fun Q => d.addSubtree Q root) P
    (d.subtreeCalls P root) (2 * d.counter.remaining + 1)
  siblings_end : ∀ (d : Draft H) (index parent : Nat) (selected above : H),
    d.beside? index = some (parent, selected, above) →
      ∃ s, EndsWithin (Sweep.step? P selected index) (d.counter.remaining + 2)
          (d.sweeping P above) s ∧
        d.addSiblings P index = s.draft.adopt parent (s.children index)
  siblings_frugal : ∀ (d : Draft H) (index : Nat), d.Frugal (fun Q => d.addSiblings Q index) P
    (d.siblingCalls P index) (d.counter.remaining + 2)
  /-- The parents need not be those of a tree, as long as they are among finitely many handles. -/
  ancestry : ∀ (selected : H) (S : Finset H), selected ∈ S → P.ParentsWithin S →
    ∃ as a, Ascends P selected as a ∧ ((as ++ [a]).flatMap Ascent.calls).length ≤ S.card

theorem Platform.boundedWork (P : Platform H) : P.BoundedWork where
  subtree_ends _ _ _ hh := ⟨_, Draft.endsWithin_opened, Draft.addSubtree_eq hh⟩
  subtree_frugal d root := d.frugal_addSubtree P root
  siblings_end d index _ selected above hb :=
    ⟨_, Draft.endsWithin_sweeping P d selected index above, Draft.addSiblings_some hb⟩
  siblings_frugal d index := d.frugal_addSiblings P index
  ancestry selected S hselected hS := by
    obtain ⟨as, a, hloops, hlt⟩ := Ascent.exists_loops hS hselected
    refine ⟨as, a, Ascent.ascends hloops, ?_⟩
    rw [Ascent.length_calls]
    omega

/-- Every element has a child and a sibling that were never seen before, and parents run in a
cycle. -/
def restless : Platform Nat where
  navigate
    | .parent, n => .ok (some ((n + 1) % 3))
    | _, n => .ok (some (n + 1))
  read _ _ := .ok {}
  height := 2

theorem parentsWithin_restless : restless.ParentsWithin {0, 1, 2} := by
  intro h _ parent hp
  obtain rfl : (h + 1) % 3 = parent := Option.some.inj (Except.ok.inj hp)
  simp only [Finset.mem_insert, Finset.mem_singleton]
  omega

/-- On this platform each phase that may admit three elements, and the climb among three handles,
makes all the calls that it may make. -/
theorem boundedWork_restless :
    restless.BoundedWork ∧
      (let d := (Walker.startDraft 1 [0] ⟨3, 0, 0⟩ #[]).2
       (d.subtreeCalls restless 0).length = 2 * d.counter.remaining + 1 ∧
        (d.siblingCalls restless 0).length = d.counter.remaining + 2) ∧
      ancestry restless 0 = ([1, 2], #[.ancestryCycle 3]) ∧
      ∃ as a, Ascends restless 0 as a ∧ ((as ++ [a]).flatMap Ascent.calls).length ≤ 3 := by
  refine ⟨restless.boundedWork, ⟨by decide, by decide⟩, rfl, ?_⟩
  exact restless.boundedWork.ancestry 0 {0, 1, 2} (by decide) parentsWithin_restless

end UiConformance
