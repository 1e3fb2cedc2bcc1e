import UiConformance.Element.Tree

/-!
# Links between elements

An element tree seen through three functions of a position: the identifier, the parent and the list
of children. Each operation that builds a tree changes them as its equations below say.

`t.RootedAt top` is well-formedness: parents and children agree, every element but `top` is the
child of exactly one other, and following parents leads to `top`. It is kept by the three ways in
which a tree grows: a leaf below an element, a new topmost element, and an element that takes
detached ones among its children.
-/

namespace UiConformance.ElementTree

def id? (t : ElementTree) (i : Nat) : Option Int := (t.node? i).map (·.id)

def parent? (t : ElementTree) (i : Nat) : Option Nat := (t.node? i).bind (·.parent)

def childrenOf (t : ElementTree) (i : Nat) : List Nat :=
  ((t.node? i).map (·.children.toList)).getD []

variable {t : ElementTree} {i j p c top : Nat}

theorem node?_eq_none (h : t.size ≤ i) : t.node? i = none := Array.getElem?_eq_none h

theorem exists_node? (h : i < t.size) : ∃ n, t.node? i = some n :=
  ⟨_, Array.getElem?_eq_getElem h⟩

theorem lt_size_of_node? {n : ElementNode} (h : t.node? i = some n) : i < t.size := by
  rcases Nat.lt_or_ge i t.size with hi | hi
  · exact hi
  · rw [node?_eq_none hi] at h; cases h

theorem lt_size_of_parent? (h : t.parent? i = some p) : i < t.size := by
  obtain ⟨n, hn, -⟩ := Option.bind_eq_some_iff.mp h
  exact lt_size_of_node? hn

theorem childrenOf_of_ge (h : t.size ≤ i) : t.childrenOf i = [] := by
  rw [childrenOf, node?_eq_none h]; rfl

/-! ## What the operations do -/

theorem node?_link (t : ElementTree) (p c j : Nat) :
    (t.link p c).node? j = (t.node? j).map fun n =>
      { n with
        parent := if j = c then some p else n.parent
        children := if j = p then n.children.push c else n.children } := by
  unfold link
  rw [node?_modify, node?_modify]
  cases t.node? j with
  | none => simp
  | some n => by_cases hp : p = j <;> by_cases hc : c = j <;> simp [hp, hc, Ne.symm]

theorem node?_setParent (p : Nat) (cs : List Nat) (t : ElementTree) (j : Nat) :
    (cs.foldl (fun t c => t.modify c fun n => { n with parent := some p }) t).node? j =
      (t.node? j).map fun n => { n with parent := if j ∈ cs then some p else n.parent } := by
  induction cs generalizing t with
  | nil => simp
  | cons c cs ih =>
    rw [List.foldl_cons, ih, node?_modify]
    cases t.node? j with
    | none => simp
    | some n => by_cases hc : c = j <;> by_cases hj : j ∈ cs <;> simp [hc, hj, Ne.symm]

theorem node?_adopt (t : ElementTree) (p : Nat) (cs : Array Nat) (j : Nat) :
    (t.adopt p cs).node? j = (t.node? j).map fun n =>
      { n with
        parent := if j ∈ cs.toList then some p else n.parent
        children := if j = p then cs else n.children } := by
  unfold adopt
  rw [← Array.foldl_toList, node?_modify, node?_setParent]
  cases t.node? j with
  | none => simp
  | some n => by_cases hp : p = j <;> simp [hp, Ne.symm]

@[simp] theorem id?_push (t : ElementTree) (id : Int) (j : Nat) :
    (t.push { id }).id? j = if j = t.size then some id else t.id? j := by
  unfold id?
  rw [node?_push]
  split <;> rfl

@[simp] theorem parent?_push (t : ElementTree) (id : Int) (j : Nat) :
    (t.push { id }).parent? j = t.parent? j := by
  unfold parent?
  rw [node?_push]
  split
  · next h => rw [h, node?_eq_none (Nat.le_refl _)]; rfl
  · rfl

@[simp] theorem childrenOf_push (t : ElementTree) (id : Int) (j : Nat) :
    (t.push { id }).childrenOf j = t.childrenOf j := by
  unfold childrenOf
  rw [node?_push]
  split
  · next h => rw [h, node?_eq_none (Nat.le_refl _)]; rfl
  · rfl

@[simp] theorem id?_link (t : ElementTree) (p c j : Nat) : (t.link p c).id? j = t.id? j := by
  unfold id?
  rw [node?_link, Option.map_map]
  rfl

theorem parent?_link (hc : c < t.size) :
    (t.link p c).parent? j = if j = c then some p else t.parent? j := by
  unfold parent?
  rw [node?_link]
  by_cases h : j = c
  · obtain ⟨n, hn⟩ := exists_node? hc
    simp [h, hn]
  · cases t.node? j <;> simp [h]

theorem childrenOf_link (hp : p < t.size) :
    (t.link p c).childrenOf j = if j = p then t.childrenOf j ++ [c] else t.childrenOf j := by
  unfold childrenOf
  rw [node?_link]
  by_cases h : j = p
  · obtain ⟨n, hn⟩ := exists_node? hp
    simp [h, hn]
  · cases t.node? j <;> simp [h]

@[simp] theorem id?_adopt (t : ElementTree) (p : Nat) (cs : Array Nat) (j : Nat) :
    (t.adopt p cs).id? j = t.id? j := by
  unfold id?
  rw [node?_adopt, Option.map_map]
  rfl

theorem parent?_adopt {cs : Array Nat} (hcs : ∀ c ∈ cs.toList, c < t.size) :
    (t.adopt p cs).parent? j = if j ∈ cs.toList then some p else t.parent? j := by
  unfold parent?
  rw [node?_adopt]
  by_cases h : j ∈ cs.toList
  · obtain ⟨n, hn⟩ := exists_node? (hcs j h)
    simp only [hn, Option.map_some, Option.bind_some, if_pos h]
  · cases t.node? j <;> simp [h]

theorem childrenOf_adopt (hp : p < t.size) {cs : Array Nat} :
    (t.adopt p cs).childrenOf j = if j = p then cs.toList else t.childrenOf j := by
  unfold childrenOf
  rw [node?_adopt]
  by_cases h : j = p
  · obtain ⟨n, hn⟩ := exists_node? hp
    simp [h, hn]
  · cases t.node? j <;> simp [h]

/-! ## Rooted trees -/

/-- Following parents from `i` leads to `j`. -/
inductive Climbs (t : ElementTree) : Nat → Nat → Prop
  | refl (i : Nat) : Climbs t i i
  | step {i p j : Nat} : t.parent? i = some p → Climbs t p j → Climbs t i j

theorem Climbs.mono {t' : ElementTree} (h : t.Climbs i j)
    (hp : ∀ i p, t.parent? i = some p → t'.parent? i = some p) : t'.Climbs i j := by
  induction h with
  | refl i => exact .refl i
  | step he _ ih => exact .step (hp _ _ he) ih

theorem Climbs.trans {k : Nat} (h : t.Climbs i j) (h' : t.Climbs j k) : t.Climbs i k := by
  induction h with
  | refl i => exact h'
  | step he _ ih => exact .step he (ih h')

/-- Parents and children agree and form one tree below `top`. -/
structure RootedAt (t : ElementTree) (top : Nat) : Prop where
  inside : top < t.size
  parent_top : t.parent? top = none
  exists_parent : ∀ i < t.size, i ≠ top → ∃ p < t.size, t.parent? i = some p
  count_children : ∀ i p, t.parent? i = some p → (t.childrenOf p).count i = 1
  parent_of_mem : ∀ p, ∀ i ∈ t.childrenOf p, i < t.size ∧ t.parent? i = some p
  climbs : ∀ i < t.size, t.Climbs i top

/-- No children list leads outside. -/
def Closed (t : ElementTree) : Prop := ∀ p, ∀ i ∈ t.childrenOf p, i < t.size

theorem RootedAt.closed (h : t.RootedAt top) : t.Closed := fun p i hi =>
  (h.parent_of_mem p i hi).1

theorem RootedAt.not_mem_of_ge (h : t.RootedAt top) (hi : t.size ≤ i) (p : Nat) :
    i ∉ t.childrenOf p := fun hm => by
  have := h.closed p i hm
  omega

/-- A single element is a tree. -/
theorem rootedAt_singleton (id : Int) : (({} : ElementTree).push { id }).RootedAt 0 := by
  have hp : ∀ j, (({} : ElementTree).push { id }).parent? j = none := fun j => parent?_push _ _ _
  have hc : ∀ j, (({} : ElementTree).push { id }).childrenOf j = [] := fun j =>
    childrenOf_push _ _ _
  have hs : (({} : ElementTree).push { id }).size = 1 := rfl
  refine ⟨by omega, hp 0, fun i hi hne => by omega, fun i p he => ?_, fun p i hi => ?_,
    fun i hi => ?_⟩
  · rw [hp] at he; cases he
  · rw [hc] at hi; cases hi
  · obtain rfl : i = 0 := by omega
    exact .refl 0

/-- New leaves below one element, in any order among its children, keep the tree. -/
theorem RootedAt.grow {t' : ElementTree} (h : t.RootedAt top) {q : Nat} (cs : List Nat)
    (hq : q < t.size) (hs : t.size ≤ t'.size)
    (hpar : ∀ j, t'.parent? j = if t.size ≤ j ∧ j < t'.size then some q else t.parent? j)
    (hch : ∀ j, t'.childrenOf j = if j = q then cs else t.childrenOf j)
    (hcs : cs.Perm (t.childrenOf q ++ List.range' t.size (t'.size - t.size))) :
    t'.RootedAt top := by
  have hnew : ∀ j, t.size ≤ j → j < t'.size → t'.parent? j = some q := fun j h1 h2 => by
    rw [hpar, if_pos ⟨h1, h2⟩]
  have hold : ∀ j, j < t.size → t'.parent? j = t.parent? j := fun j h1 => by
    rw [hpar, if_neg (by omega)]
  have hmem : ∀ j, j ∈ cs ↔ j ∈ t.childrenOf q ∨ (t.size ≤ j ∧ j < t'.size) := fun j => by
    rw [hcs.mem_iff, List.mem_append, List.mem_range'_1]
    refine or_congr_right ⟨fun hj => ⟨hj.1, by omega⟩, fun hj => ⟨hj.1, by omega⟩⟩
  have hin := h.inside
  have hclimbs : ∀ i, i < t.size → t'.Climbs i top := fun i hi =>
    (h.climbs i hi).mono fun j p he => by rw [hold j (lt_size_of_parent? he), he]
  refine ⟨by omega, by rw [hold top hin, h.parent_top], fun i hi hne => ?_, fun i p he => ?_,
    fun p i hi => ?_, fun i hi => ?_⟩
  · rcases Nat.lt_or_ge i t.size with hlt | hge
    · obtain ⟨p, hp, he⟩ := h.exists_parent i hlt hne
      exact ⟨p, by omega, by rw [hold i hlt, he]⟩
    · exact ⟨q, by omega, hnew i hge hi⟩
  · have hi : i < t'.size := lt_size_of_parent? he
    rcases Nat.lt_or_ge i t.size with hlt | hge
    · rw [hold i hlt] at he
      have hone := h.count_children i p he
      rw [hch]
      split
      · next e =>
        subst e
        rw [hcs.count_eq, List.count_append, hone, List.count_eq_zero.mpr]
        rw [List.mem_range'_1]; omega
      · exact hone
    · rw [hnew i hge hi] at he
      obtain rfl := Option.some.inj he
      rw [hch, if_pos rfl, hcs.count_eq, List.count_append,
        List.count_eq_zero.mpr (h.not_mem_of_ge hge q), List.count_range_1', if_pos (by omega)]
  · rw [hch] at hi
    split at hi
    · next e =>
      subst e
      rcases (hmem i).mp hi with hi | hi
      · obtain ⟨h1, h2⟩ := h.parent_of_mem _ i hi
        exact ⟨by omega, by rw [hold i h1, h2]⟩
      · exact ⟨hi.2, hnew i hi.1 hi.2⟩
    · obtain ⟨h1, h2⟩ := h.parent_of_mem p i hi
      exact ⟨by omega, by rw [hold i h1, h2]⟩
  · rcases Nat.lt_or_ge i t.size with hlt | hge
    · exact hclimbs i hlt
    · exact .step (hnew i hge hi) (hclimbs q hq)

/-- A leaf below an element. -/
theorem RootedAt.push_link (h : t.RootedAt top) (hp : p < t.size) (id : Int) :
    ((t.push { id }).link p t.size).RootedAt top := by
  have hs : ((t.push { id }).link p t.size).size = t.size + 1 := by simp
  refine h.grow (t.childrenOf p ++ [t.size]) hp (by omega) (fun j => ?_) (fun j => ?_) ?_
  · rw [parent?_link (by simp), parent?_push, hs]
    by_cases hj : j = t.size
    · rw [if_pos hj, if_pos (by omega)]
    · rw [if_neg hj, if_neg (by omega)]
  · rw [childrenOf_link (by simp; omega), childrenOf_push]
    by_cases hj : j = p
    · rw [if_pos hj, if_pos hj, hj]
    · rw [if_neg hj, if_neg hj]
  · rw [hs, Nat.add_sub_cancel_left]
    exact .refl _

/-- A new topmost element. -/
theorem RootedAt.push_above (h : t.RootedAt top) (id : Int) :
    ((t.push { id }).link t.size top).RootedAt t.size := by
  have hin := h.inside
  have hs : ((t.push { id }).link t.size top).size = t.size + 1 := by simp
  have hpar : ∀ j, ((t.push { id }).link t.size top).parent? j =
      if j = top then some t.size else t.parent? j := fun j => by
    rw [parent?_link (by simp; omega), parent?_push]
  have hch : ∀ j, ((t.push { id }).link t.size top).childrenOf j =
      if j = t.size then [top] else t.childrenOf j := fun j => by
    rw [childrenOf_link (by simp), childrenOf_push]
    split
    · next e => rw [e, childrenOf_of_ge (Nat.le_refl _), List.nil_append]
    · rfl
  have hnone : t.parent? t.size = none := by rw [parent?, node?_eq_none (Nat.le_refl _)]; rfl
  have hstep : ((t.push { id }).link t.size top).Climbs top t.size :=
    .step (by rw [hpar, if_pos rfl]) (.refl _)
  refine ⟨by omega, by rw [hpar, if_neg (by omega), hnone], fun i hi hne => ?_, fun i p he => ?_,
    fun p i hi => ?_, fun i hi => ?_⟩
  · by_cases e : i = top
    · exact ⟨t.size, by omega, by rw [hpar, if_pos e]⟩
    · obtain ⟨p, hp, he⟩ := h.exists_parent i (by omega) e
      exact ⟨p, by omega, by rw [hpar, if_neg e, he]⟩
  · rw [hpar] at he
    split at he
    · next e =>
      obtain rfl := Option.some.inj he
      rw [hch, if_pos rfl, e]
      exact List.count_singleton_self
    · have hp : p < t.size := by
        rcases Nat.lt_or_ge p t.size with hp | hp
        · exact hp
        · have := h.count_children i p he
          rw [childrenOf_of_ge hp] at this; cases this
      rw [hch, if_neg (by omega)]
      exact h.count_children i p he
  · rw [hch] at hi
    split at hi
    · next e =>
      obtain rfl := List.mem_singleton.mp hi
      exact ⟨by omega, by rw [hpar, if_pos rfl, e]⟩
    · obtain ⟨h1, h2⟩ := h.parent_of_mem p i hi
      refine ⟨by omega, ?_⟩
      rw [hpar, if_neg, h2]
      intro e
      rw [e, h.parent_top] at h2; cases h2
  · by_cases hi' : i = t.size
    · rw [hi']; exact .refl _
    · refine Climbs.trans ?_ hstep
      refine (h.climbs i (by omega)).mono fun j p he => ?_
      rw [hpar, if_neg, he]
      intro e
      rw [e, h.parent_top] at he; cases he

end UiConformance.ElementTree
