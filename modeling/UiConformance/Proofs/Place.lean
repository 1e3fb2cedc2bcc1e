import UiConformance.Snapshot.Tree

/-!
# Places in a tree

A place is a node of a rose tree together with everything around it: the tree below it and, for
each ancestor from the nearest up, its value and the children before and after the branch that leads
to the place. It is what a handle of a snapshot stands for: every number below the size of a tree is
the number, in document order, of a place in it.
-/

namespace UiConformance

variable {α : Type}

/-- An ancestor without the branch that leads down from it. -/
structure Crumb (α : Type) where
  value : α
  before : List (Rose α)
  after : List (Rose α)

def Crumb.plug (c : Crumb α) (t : Rose α) : Rose α := .node c.value (c.before ++ t :: c.after)

structure Place (α : Type) where
  focus : Rose α
  /-- The ancestors, the nearest first. -/
  above : List (Crumb α)

namespace Crumb

/-- The tree around a branch. -/
def plugAll : List (Crumb α) → Rose α → Rose α
  | [], t => t
  | c :: cs, t => plugAll cs (c.plug t)

/-- The number, in document order, of a branch with these ancestors. -/
def offset : List (Crumb α) → Nat
  | [] => 0
  | c :: cs => offset cs + 1 + Rose.sizeForest c.before

def offsets : List (Crumb α) → List Nat
  | [] => []
  | _ :: cs => offset cs :: offsets cs

end Crumb

namespace Rose

@[simp] theorem sizeForest_append (ts us : List (Rose α)) :
    sizeForest (ts ++ us) = sizeForest ts + sizeForest us := by
  induction ts with
  | nil => simp [sizeForest]
  | cons t ts ih => rw [List.cons_append, sizeForest, ih, sizeForest, Nat.add_assoc]

theorem node_value_children (t : Rose α) : .node t.value t.children = t := by
  cases t
  rfl

theorem size_plug (c : Crumb α) (t : Rose α) :
    (c.plug t).size = 1 + sizeForest c.before + t.size + sizeForest c.after := by
  rw [Crumb.plug, size, sizeForest_append, sizeForest]
  omega

end Rose

namespace Crumb

theorem length_offsets (cs : List (Crumb α)) : (offsets cs).length = cs.length := by
  induction cs with
  | nil => rfl
  | cons c cs ih => rw [offsets, List.length_cons, List.length_cons, ih]

theorem length_le_offset (cs : List (Crumb α)) : cs.length ≤ offset cs := by
  induction cs with
  | nil => exact Nat.le_refl _
  | cons c cs ih => rw [offset, List.length_cons]; omega

theorem lt_of_mem_offsets {cs : List (Crumb α)} {n : Nat} (h : n ∈ offsets cs) :
    n < offset cs := by
  induction cs with
  | nil => cases h
  | cons c cs ih =>
    rw [offset]
    rcases List.mem_cons.mp h with rfl | h
    · omega
    · have := ih h
      omega

theorem offset_add_size_le (cs : List (Crumb α)) (t : Rose α) :
    offset cs + t.size ≤ (plugAll cs t).size := by
  induction cs generalizing t with
  | nil => rw [offset, plugAll]; omega
  | cons c cs ih =>
    have := ih (c.plug t)
    rw [Rose.size_plug] at this
    rw [offset, plugAll]
    omega

end Crumb

namespace Place

def whole (p : Place α) : Rose α := Crumb.plugAll p.above p.focus

def number (p : Place α) : Nat := Crumb.offset p.above

def descendants (p : Place α) : Nat := Rose.sizeForest p.focus.children

/-- The other children of the parent. -/
def siblings (p : Place α) : List (Rose α) :=
  match p.above with
  | [] => []
  | c :: _ => c.before ++ c.after

mutual

/-- The nodes of a branch are places, numbered from that of its root. -/
theorem exists_place_below (cs : List (Crumb α)) : (t : Rose α) → ∀ n < t.size,
    ∃ p : Place α, p.whole = Crumb.plugAll cs t ∧ p.number = Crumb.offset cs + n
  | .node a ts, n, hn => by
    rcases Nat.eq_zero_or_pos n with rfl | hpos
    · exact ⟨⟨.node a ts, cs⟩, rfl, rfl⟩
    · rw [Rose.size] at hn
      obtain ⟨p, hw, hp⟩ := exists_place_among cs a [] ts (n - 1) (by omega)
      refine ⟨p, hw, ?_⟩
      rw [hp, Rose.sizeForest]
      omega

theorem exists_place_among (cs : List (Crumb α)) (a : α) (before : List (Rose α)) :
    (ts : List (Rose α)) → ∀ n < Rose.sizeForest ts, ∃ p : Place α,
      p.whole = Crumb.plugAll cs (.node a (before ++ ts)) ∧
      p.number = Crumb.offset cs + 1 + Rose.sizeForest before + n
  | [], n, hn => by rw [Rose.sizeForest] at hn; omega
  | t :: ts, n, hn => by
    rw [Rose.sizeForest] at hn
    rcases Nat.lt_or_ge n t.size with hlt | hge
    · exact exists_place_below (⟨a, before, ts⟩ :: cs) t n hlt
    · obtain ⟨p, hw, hp⟩ := exists_place_among cs a (before ++ [t]) ts (n - t.size) (by omega)
      rw [List.append_assoc] at hw
      refine ⟨p, hw, ?_⟩
      rw [hp, Rose.sizeForest_append, Rose.sizeForest, Rose.sizeForest]
      omega

end

/-- Every number in a tree is that of a place. -/
theorem exists_place (t : Rose α) {n : Nat} (h : n < t.size) :
    ∃ p : Place α, p.whole = t ∧ p.number = n := by
  obtain ⟨p, hw, hp⟩ := exists_place_below [] t n h
  exact ⟨p, hw, by rw [hp, Crumb.offset, Nat.zero_add]⟩

theorem number_add_size_le (p : Place α) : p.number + p.focus.size ≤ p.whole.size :=
  Crumb.offset_add_size_le p.above p.focus

/-- Each ancestor of a place is a place in the same tree. -/
theorem exists_ancestor (p : Place α) {k : Nat} {c : Crumb α} (h : p.above[k]? = some c) :
    ∃ q : Place α, q.whole = p.whole ∧ (Crumb.offsets p.above)[k]? = some q.number ∧
      q.focus.value = c.value := by
  obtain ⟨t, cs⟩ := p
  induction cs generalizing t k with
  | nil => cases h
  | cons d cs ih =>
    cases k with
    | zero =>
      obtain rfl := Option.some.inj h
      exact ⟨⟨d.plug t, cs⟩, rfl, rfl, rfl⟩
    | succ k => exact ih (d.plug t) h

end Place

end UiConformance
