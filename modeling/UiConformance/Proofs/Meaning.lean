import UiConformance.Proofs.Constancy
import UiConformance.Proofs.Evaluation

/-!
# What conditions say

`c.MetAt t i` says by the rules of logic that `c` is met at position `i` of the tree `t`. It reads
control types, patterns and children by position and does not ask how a condition is evaluated. An
assembled tree lists no child that it does not hold, however its elements are linked: they may be
shared, be their own children or go round in circles. On such a tree evaluation never fails and
decides `MetAt`.
-/

namespace UiConformance

/-! ## Trees that are put together -/

/-- Linked to no other element. -/
structure ElementNode.Detached (n : ElementNode) : Prop where
  parent : n.parent = none
  children : n.children = #[]

namespace ElementTree

/-- The trees that are put together from detached elements, with every operation applied inside the
tree. -/
inductive Assembled : ElementTree → Prop
  | empty : Assembled {}
  | push {t : ElementTree} {n : ElementNode} : Assembled t → n.Detached → Assembled (t.push n)
  | pushChild {t : ElementTree} {p : Nat} {n : ElementNode} :
      Assembled t → p < t.size → n.Detached → Assembled (t.pushChild p n)
  | link {t : ElementTree} {p c : Nat} :
      Assembled t → p < t.size → c < t.size → Assembled (t.link p c)
  | adopt {t : ElementTree} {p : Nat} {cs : Array Nat} :
      Assembled t → p < t.size → (∀ c ∈ cs.toList, c < t.size) → Assembled (t.adopt p cs)

variable {t : ElementTree} {p c : Nat} {n : ElementNode}

theorem Closed.push (h : t.Closed) (hn : n.Detached) : (t.push n).Closed := by
  intro p i hi
  rw [childrenOf, node?_push] at hi
  rw [size_push]
  split at hi
  · simp [hn.children] at hi
  · exact Nat.lt_succ_of_lt (h p i hi)

theorem Closed.link (h : t.Closed) (hp : p < t.size) (hc : c < t.size) : (t.link p c).Closed := by
  intro q i hi
  rw [childrenOf_link hp] at hi
  rw [size_link]
  split at hi
  · rcases List.mem_append.mp hi with hi | hi
    · exact h q i hi
    · exact List.mem_singleton.mp hi ▸ hc
  · exact h q i hi

theorem Closed.adopt (h : t.Closed) (hp : p < t.size) {cs : Array Nat}
    (hcs : ∀ c ∈ cs.toList, c < t.size) : (t.adopt p cs).Closed := by
  intro q i hi
  rw [childrenOf_adopt hp] at hi
  rw [size_adopt]
  split at hi
  · exact hcs i hi
  · exact h q i hi

theorem Assembled.closed (h : t.Assembled) : t.Closed := by
  induction h with
  | empty => exact fun p i hi => nomatch hi
  | push _ hn ih => exact ih.push hn
  | pushChild _ hp hn ih =>
    refine (ih.push hn).link ?_ ?_
    · rw [size_push]
      exact Nat.lt_succ_of_lt hp
    · rw [size_push]
      exact Nat.lt_succ_self _
  | link _ hp hc ih => exact ih.link hp hc
  | adopt _ hp hcs ih => exact ih.adopt hp hcs

/-! ## Elements by position -/

def controlType? (t : ElementTree) (i : Nat) : Option ControlType := (t.node? i).map (·.controlType)

def patternsOf (t : ElementTree) (i : Nat) : List PatternId :=
  ((t.node? i).map (·.patterns)).getD []

end ElementTree

namespace Element

variable {e k : Element}

theorem controlType?_index (e : Element) : e.tree.controlType? e.index = some e.controlType := by
  rw [ElementTree.controlType?, ElementTree.node?_index rfl]
  rfl

theorem patternsOf_index (e : Element) : e.tree.patternsOf e.index = e.node.patterns := by
  rw [ElementTree.patternsOf, ElementTree.node?_index rfl]
  rfl

theorem mem_children_iff :
    k ∈ e.children ↔ k.tree = e.tree ∧ k.index ∈ e.tree.childrenOf e.index := by
  rw [children_eq, List.mem_filterMap]
  constructor
  · rintro ⟨i, hi, hk⟩
    obtain ⟨ht, rfl⟩ := ElementTree.element?_eq_some_iff.mp hk
    exact ⟨ht, hi⟩
  · rintro ⟨ht, hi⟩
    exact ⟨k.index, hi, ElementTree.element?_eq_some_iff.mpr ⟨ht, rfl⟩⟩

end Element

/-! ## Meaning -/

namespace Condition

/-- The condition is met at a position. A parent with a child condition needs no child where both
parts are constant. -/
def MetAt (t : ElementTree) : Condition → Nat → Prop
  | always, _ => True
  | never, _ => False
  | controlTypeIs c, i => t.controlType? i = some c
  | patternIs p, i => p ∈ t.patternsOf i
  | and l r, i => l.MetAt t i ∧ r.MetAt t i
  | or l r, i => l.MetAt t i ∨ r.MetAt t i
  | not c, i => ¬ c.MetAt t i
  | withChild p c, i =>
    if p.constant?.isSome ∧ c.constant?.isSome then
      p.constant? = some true ∧ c.constant? = some true
    else p.MetAt t i ∧ ∃ k ∈ t.childrenOf i, c.MetAt t k

instance decidableMetAt (t : ElementTree) : (c : Condition) → (i : Nat) → Decidable (c.MetAt t i)
  | always, _ => inferInstanceAs (Decidable True)
  | never, _ => inferInstanceAs (Decidable False)
  | controlTypeIs c, i => inferInstanceAs (Decidable (t.controlType? i = some c))
  | patternIs p, i => inferInstanceAs (Decidable (p ∈ t.patternsOf i))
  | and l r, i =>
    have := decidableMetAt t l i
    have := decidableMetAt t r i
    inferInstanceAs (Decidable (_ ∧ _))
  | or l r, i =>
    have := decidableMetAt t l i
    have := decidableMetAt t r i
    inferInstanceAs (Decidable (_ ∨ _))
  | not c, i =>
    have := decidableMetAt t c i
    inferInstanceAs (Decidable (¬ _))
  | withChild p c, i =>
    have := decidableMetAt t p i
    have := decidableMetAt t c
    inferInstanceAs (Decidable (ite _ _ _))

variable {e : Element}

/-- In a tree that holds all children it lists, a condition holds of an element where it is met. -/
theorem holds_iff_metAt {t : ElementTree} (ht : t.Closed) (c : Condition) (he : e.tree = t) :
    c.holds e = true ↔ c.MetAt t e.index := by
  induction c generalizing e with
  | always | never => simp [holds, MetAt]
  | controlTypeIs c =>
    subst he
    rw [holds, MetAt, e.controlType?_index]
    simp
  | patternIs p =>
    subst he
    rw [holds, MetAt, e.patternsOf_index]
    exact List.contains_iff_mem
  | and l r ihl ihr => rw [holds, MetAt, Bool.and_eq_true, ihl he, ihr he]
  | or l r ihl ihr => rw [holds, MetAt, Bool.or_eq_true, ihl he, ihr he]
  | not c ih => rw [holds, MetAt, Bool.not_eq_true', ← Bool.not_eq_true, ih he]
  | withChild p c ihp ihc =>
    rw [holds_withChild, MetAt]
    split
    · simp
    · rw [Bool.and_eq_true, ihp he, List.any_eq_true]
      refine and_congr_right fun _ => ⟨?_, ?_⟩
      · rintro ⟨k, hk, hc⟩
        obtain ⟨hkt, hki⟩ := Element.mem_children_iff.mp hk
        exact ⟨k.index, he ▸ hki, (ihc (hkt.trans he)).mp hc⟩
      · -- A listed child lies inside the tree, so that there is an element for it.
        rintro ⟨i, hi, hc⟩
        refine ⟨⟨t, i, ht _ _ hi⟩, Element.mem_children_iff.mpr ⟨he.symm, ?_⟩, (ihc rfl).mpr hc⟩
        rw [he]
        exact hi

/-- Evaluation against an element of an assembled tree never fails and decides whether the condition
is met there. -/
theorem evaluate_of_assembled {e : Element} (h : e.tree.Assembled) (c : Condition) :
    c.evaluate (some e) = .ok (decide (c.MetAt e.tree e.index)) ∧
      c.appliesTo e = decide (c.MetAt e.tree e.index) := by
  have hholds : c.holds e = decide (c.MetAt e.tree e.index) := by
    rw [Bool.eq_iff_iff, decide_eq_true_iff]
    exact holds_iff_metAt h.closed c rfl
  exact ⟨by rw [evaluate_some, hholds], by rw [appliesTo_eq_holds, hholds]⟩

/-- A link and a text that are children of each other, the text also of itself. -/
def knot : ElementTree :=
  ((((({} : ElementTree).push { id := 0, controlType := .hyperlink }).pushChild 0
    { id := 1, controlType := .staticText, patterns := [⟨10014⟩] }).link 1 0).link 1 1).adopt 0
      #[1, 1]

theorem evaluate_of_assembled_knot :
    knot.Assembled ∧
      (~~~(controlTypeIs .hyperlink / ~~~(controlTypeIs .staticText / patternIs ⟨10014⟩))).evaluate
        (some ⟨knot, 0, by decide⟩) = .ok true := by
  have h : knot.Assembled :=
    .adopt (.link (.link (.pushChild (.push .empty ⟨rfl, rfl⟩) (by decide) ⟨rfl, rfl⟩)
      (by decide) (by decide)) (by decide) (by decide)) (by decide) (by decide)
  exact ⟨h, (evaluate_of_assembled (e := ⟨knot, 0, by decide⟩) h _).1.trans (by decide)⟩

end Condition

end UiConformance
