import UiConformance.Platform.Script
import UiConformance.Proofs.Population
import UiConformance.Proofs.Shape
import UiConformance.Proofs.WellFormed

/-!
# Truncation

`t.PrefixOf t'` says that `t` is what `t'` was when it had only as many elements: the same elements
come first, and each has those of its children that were there by then, in the same order.

A smaller budget cuts a walk off this way. Attachments and detached elements only ever extend an
outline; a children list that is replaced was a part of the one that replaces it, because the
selected element has its place in both and everything else in them is new.
-/

namespace UiConformance

namespace ElementTree

structure PrefixOf (t t' : ElementTree) : Prop where
  size_le : t.size ≤ t'.size
  node? : ∀ i n, t.node? i = some n → ∃ cs : Array Nat,
    t'.node? i = some { n with children := cs } ∧
      n.children.toList = cs.toList.filter (· < t.size)

variable {t t' t'' : ElementTree}

theorem Closed.filter_children (h : t.Closed) {i : Nat} {n : ElementNode}
    (hn : t.node? i = some n) : n.children.toList.filter (· < t.size) = n.children.toList := by
  refine List.filter_eq_self.mpr fun j hj => decide_eq_true (h i j ?_)
  rw [childrenOf, hn]
  exact hj

theorem Closed.prefixOf_self (h : t.Closed) : t.PrefixOf t :=
  ⟨Nat.le_refl _, fun _ n hn => ⟨n.children, hn, (h.filter_children hn).symm⟩⟩

theorem PrefixOf.trans (h : t.PrefixOf t') (h' : t'.PrefixOf t'') : t.PrefixOf t'' := by
  refine ⟨Nat.le_trans h.size_le h'.size_le, fun i n hn => ?_⟩
  obtain ⟨cs, hcs, hf⟩ := h.node? i n hn
  obtain ⟨ds, hds, hg⟩ := h'.node? i _ hcs
  refine ⟨ds, hds, ?_⟩
  have hle := h.size_le
  rw [hf, show cs.toList = _ from hg, List.filter_filter]
  refine List.filter_congr fun j _ => ?_
  rw [← Bool.decide_and, decide_eq_decide]
  omega

/-- Replacing a children list by a part of the list that replaces it in the larger tree. -/
theorem PrefixOf.adopt (h : t.PrefixOf t') (q : Nat) {cs cs' : List Nat}
    (hcs : cs = cs'.filter (· < t.size)) :
    (t.adopt q cs.toArray).PrefixOf (t'.adopt q cs'.toArray) := by
  refine ⟨by rw [size_adopt, size_adopt]; exact h.size_le, fun i n hn => ?_⟩
  rw [node?_adopt] at hn
  obtain ⟨m, hm, rfl⟩ := Option.map_eq_some_iff.mp hn
  obtain ⟨ds, hds, hf⟩ := h.node? i m hm
  have hi := lt_size_of_node? hm
  have hmem : i ∈ cs ↔ i ∈ cs' := by
    rw [hcs, List.mem_filter]
    exact and_iff_left (decide_eq_true hi)
  rw [node?_adopt, hds, size_adopt]
  refine ⟨if i = q then cs'.toArray else ds, ?_, ?_⟩
  · simp only [Option.map_some, hmem]
  · by_cases hq : i = q
    · rw [if_pos hq, if_pos hq]
      exact hcs
    · rw [if_neg hq, if_neg hq]
      exact hf

end ElementTree

namespace Outline

variable {H : Type} {o o' o'' : Outline H}

/-- The elements of the one come first in the other and stand for the same handles. -/
structure PrefixOf (o o' : Outline H) : Prop where
  tree : o.tree.PrefixOf o'.tree
  handles : o.handles.toList <+: o'.handles.toList

theorem PrefixOf.trans (h : o.PrefixOf o') (h' : o'.PrefixOf o'') : o.PrefixOf o'' :=
  ⟨h.tree.trans h'.tree, h.handles.trans h'.handles⟩

theorem prefixOf_attach (ho : o.tree.Closed) (p : Nat) (h : H) (id : Int) :
    o.PrefixOf (o.attach p h id) := by
  refine ⟨⟨?_, fun i n hn => ?_⟩, ?_⟩
  · rw [size_tree, size_tree, size_attach]
    exact Nat.le_succ _
  · have hi : i < o.size := ElementTree.lt_size_of_node? hn
    have hself := ho.filter_children hn
    rw [node?_attach, if_neg (by omega), hn]
    refine ⟨if i = p then n.children.push o.size else n.children, ?_, ?_⟩
    · simp only [Option.map_some, if_neg (Nat.ne_of_lt hi)]
    · split
      · have hnew : [o.size].filter (· < o.tree.size) = [] := by simp [size_tree]
        rw [Array.toList_push, List.filter_append, hself, hnew, List.append_nil]
      · exact hself.symm
  · show _ <+: (o.handles.push h).toList
    rw [Array.toList_push]
    exact List.prefix_append _ _

theorem prefixOf_attachAll {top : Nat} {as : List (Nat × H)} (ho : o.tree.RootedAt top)
    (hf : Fits o.size as) (id : Int) : o.PrefixOf (o.attachAll id as) := by
  induction as generalizing o id with
  | nil => exact ⟨ho.closed.prefixOf_self, List.prefix_rfl⟩
  | cons a as ih =>
    have hrest : Fits (o.attach a.1 a.2 id).size as := by
      rw [size_attach]
      exact hf.2
    exact (prefixOf_attach ho.closed a.1 a.2 id).trans (ih (ho.push_link hf.1 id) hrest (id + 1))

theorem closed_addAll (ho : o.tree.Closed) (id : Int) (hs : List H) :
    (o.addAll id hs).tree.Closed := by
  intro p i hi
  rw [childrenOf_addAll] at hi
  have := ho p i hi
  rw [size_tree] at this ⊢
  rw [size_addAll]
  omega

theorem prefixOf_addAll (ho : o.tree.Closed) (id : Int) (hs : List H) :
    o.PrefixOf (o.addAll id hs) := by
  refine ⟨⟨?_, fun i n hn => ⟨n.children, ?_, (ho.filter_children hn).symm⟩⟩, ?_⟩
  · rw [size_tree, size_tree, size_addAll]
    exact Nat.le_add_right _ _
  · have hi : i < o.size := ElementTree.lt_size_of_node? hn
    rw [node?_addAll, if_neg (by omega), hn]
  · rw [handles_addAll]
    exact List.prefix_append _ _

theorem PrefixOf.adopt (h : o.PrefixOf o') (q : Nat) {cs cs' : List Nat}
    (hcs : cs = cs'.filter (· < o.size)) :
    (o.adopt q cs.toArray).PrefixOf (o'.adopt q cs'.toArray) :=
  ⟨h.tree.adopt q hcs, h.handles⟩

/-- Readings do not tell a prefix from what it is a prefix of. -/
theorem PrefixOf.populate {P : Platform H} (steady : P.Steady) (h : o.PrefixOf o')
    (ho : o.Unread) (ho' : o'.Unread) (past past' : List H) (order order' : Option (List Nat)) :
    (o.populate P past order).tree.PrefixOf (o'.populate P past' order').tree := by
  have hs := (o.sameLinks_populate P past order).size
  refine ⟨?_, fun i m hm => ?_⟩
  · rw [hs, (o'.sameLinks_populate P past' order').size]
    exact h.tree.size_le
  · have hi : i < o.tree.size := by
      rw [← hs]
      exact ElementTree.lt_size_of_node? hm
    obtain ⟨n, hn⟩ := ElementTree.exists_node? hi
    obtain ⟨a, ha⟩ : ∃ a, o.handles[i]? = some a :=
      ⟨_, Array.getElem?_eq_getElem (by rw [o.aligned]; exact hi)⟩
    rw [node?_populate steady ho past order hn ha] at hm
    obtain rfl := Option.some.inj hm
    obtain ⟨cs, hcs, hf⟩ := h.tree.node? i n hn
    have ha' : o'.handles[i]? = some a := by
      obtain ⟨hs, hhs⟩ := h.handles
      rw [← Array.getElem?_toList] at ha ⊢
      rw [← hhs, List.getElem?_append_left, ha]
      exact (List.getElem?_eq_some_iff.mp ha).1
    refine ⟨cs, ?_, ?_⟩
    · rw [node?_populate steady ho' past' order' hcs ha']
      unfold Platform.settle
      split <;> rfl
    · rw [hs, ← hf]
      unfold Platform.settle
      split <;> rfl

end Outline

/-! ## Shapes under two budgets -/

namespace Outline

variable {H : Type} {ancestors : List H} {as as' : List (Nat × H)} {o o' : Outline H}

theorem prefixOf_spine_attachAll (selected : H) (hf : Fits (ancestors.length + 1) as')
    (h : as <+: as') :
    ((spine selected ancestors).attachAll 1 as).PrefixOf
      ((spine selected ancestors).attachAll 1 as') := by
  obtain ⟨more, rfl⟩ := h
  obtain ⟨hf, hmore⟩ := fits_append.mp hf
  rw [attachAll_append]
  refine prefixOf_attachAll (rootedAt_spine_attachAll selected hf) ?_ _
  rw [size_spine_attachAll]
  exact hmore

variable [DecidableEq H] {slots slots' : List (Option H)}

/-- The same subtree, with some of the siblings and with more. -/
theorem prefixOf_adopt_of_prefix (ho : o.tree.Closed) {index : Nat} (hi : index < o.size)
    (hp : slots <+: slots') (hc : slots'.countP Option.isNone ≤ 1) (id : Int) (q : Nat) :
    ((o.addAll id (newcomers slots)).adopt q
        (positions index o.size (filled slots)).toArray).PrefixOf
      ((o.addAll id (newcomers slots')).adopt q
        (positions index o.size (filled slots')).toArray) := by
  have hfilter := positions_filled_eq_filter hi hp hc
  rw [← size_addAll o id] at hfilter
  obtain ⟨more, rfl⟩ := hp
  rw [newcomers_append, addAll_append]
  exact (prefixOf_addAll (closed_addAll ho _ _) _ _).adopt q hfilter

/-- A part of the subtree without siblings, and more of it with any. -/
theorem PrefixOf.adopt_of_newcomers_eq_nil (h : o.PrefixOf o') (ho' : o'.tree.Closed)
    {index : Nat} (hi : index < o.size) (hnone : newcomers slots = [])
    (hc : slots.countP Option.isNone ≤ 1) (hc' : slots'.countP Option.isNone ≤ 1)
    (id id' : Int) (q : Nat) :
    ((o.addAll id (newcomers slots)).adopt q
        (positions index o.size (filled slots)).toArray).PrefixOf
      ((o'.addAll id' (newcomers slots')).adopt q
        (positions index o'.size (filled slots')).toArray) := by
  have hperm := positions_perm index o.size (filled slots)
  rw [newcomers_filled, hnone, countP_filled hc] at hperm
  have hfilter := filter_positions hi h.tree.size_le (filled slots')
  rw [countP_filled hc'] at hfilter
  rw [hnone]
  refine (h.trans (prefixOf_addAll ho' id' (newcomers slots'))).adopt q ?_
  exact (List.perm_replicate.mp hperm).trans hfilter.symm

end Outline

namespace Shapes

variable {H : Type} [DecidableEq H] {P : Platform H} {selected : H} {ancestors : List H}
  {context : Bool} {b b' : Nat} {o o' : Outline H} {m m' k k' : Nat}

theorem prefixOf (h : Shapes P selected ancestors context b o m k)
    (h' : Shapes P selected ancestors context b' o' m' k') (hb : b ≤ b') : o.PrefixOf o' := by
  cases h with
  | alone hno hd =>
    cases h' with
    | alone _ hd' =>
      exact Outline.prefixOf_spine_attachAll selected (hd'.fits (Nat.succ_pos _))
        (hd.isPrefix_of_le hd' hb).1
    | among hyes hanc =>
      rcases hno with e | e
      · rw [hyes] at e; cases e
      · rw [hanc] at e; cases e
  | @among as k above rest slots l hyes hanc hd hs =>
    cases h' with
    | alone hno =>
      rcases hno with e | e
      · rw [hyes] at e; cases e
      · rw [hanc] at e; cases e
    | @among as' k' above' rest' slots' l' _ hanc' hd' hs' =>
      obtain ⟨rfl, rfl⟩ : above = above' ∧ rest = rest' := by
        rw [hanc] at hanc'
        exact List.cons.inj hanc'
      obtain ⟨hpre, hsame⟩ := hd.isPrefix_of_le hd' hb
      have hfits' := hd'.fits (Nat.succ_pos _)
      have hclosed' := (Outline.rootedAt_spine_attachAll selected hfits').closed
      have hsize := Outline.size_spine_attachAll selected ancestors as
      have hsize' := Outline.size_spine_attachAll selected ancestors as'
      rw [← hsize, ← hsize']
      rcases Nat.eq_zero_or_pos k with hk | hk
      · -- The subtree is complete, and only siblings may be missing.
        obtain ⟨rfl, rfl⟩ := hsame hk
        exact Outline.prefixOf_adopt_of_prefix hclosed' (by omega)
          (hs.isPrefix_of_le hs' (by omega)).1 hs'.countP_le _ _
      · -- The budget ended within the subtree, so no sibling was admitted.
        have hlen := hd.length_eq hk
        have hnone : newcomers slots = [] :=
          List.eq_nil_of_length_eq_zero (by have := hs.length_le; omega)
        have hbase := Outline.prefixOf_spine_attachAll selected hfits' hpre
        exact hbase.adopt_of_newcomers_eq_nil hclosed' (by omega) hnone hs.countP_le hs'.countP_le
          _ _ _

end Shapes

namespace Walker

variable {H : Type} [DecidableEq H]

/-- Of two walks with fresh counters the one with the smaller bound gives a prefix of the other's
tree, whatever the platform answers and in whatever order elements are read. -/
theorem prefixOf_walkUnder {w : Walker H} (steady : w.platform.Steady) {b₁ b₂ : Int}
    {c₁ c₂ : Counter} (h₁ : Counter.ofBound b₁ = .ok c₁) (h₂ : Counter.ofBound b₂ = .ok c₂)
    (hb : b₁ ≤ b₂) {r : Option Runner} (hr : w.runnerNeeded = .ok r) (s₁ s₂ : Schedule)
    (selected : H) :
    ∃ scan₁ after₁ journal₁ scan₂ after₂ journal₂,
      walkUnder s₁ { w with counter := c₁ } selected = (.ok scan₁, after₁, journal₁) ∧
      walkUnder s₂ { w with counter := c₂ } selected = (.ok scan₂, after₂, journal₂) ∧
      scan₁.tree.PrefixOf scan₂.tree := by
  obtain ⟨scan₁, after₁, journal₁, d₁, o₁, m₁, k₁, hw₁, hd₁⟩ :=
    exists_shape (w := { w with counter := c₁ }) hr s₁ selected
  obtain ⟨scan₂, after₂, journal₂, d₂, o₂, m₂, k₂, hw₂, hd₂⟩ :=
    exists_shape (w := { w with counter := c₂ }) hr s₂ selected
  refine ⟨scan₁, after₁, journal₁, scan₂, after₂, journal₂, hw₁, hw₂, ?_⟩
  obtain ⟨⟨_, hadd₁⟩, hs₁, -, ⟨order₁, ht₁, -⟩, -, -⟩ := hd₁
  obtain ⟨⟨_, hadd₂⟩, hs₂, -, ⟨order₂, ht₂, -⟩, -, -⟩ := hd₂
  -- Both walks count the same ancestors, so the larger bound leaves at least as much budget.
  have hle : d₁.remaining ≤ d₂.remaining := by
    obtain ⟨hb₁, htr₁⟩ := (Counter.tracks_ofBound h₁).tryAdd hadd₁
    obtain ⟨hb₂, htr₂⟩ := (Counter.tracks_ofBound h₂).tryAdd hadd₂
    rw [htr₁.remaining_eq, htr₂.remaining_eq, hb₁, hb₂]
    obtain ⟨-, rfl⟩ := Counter.ofBound_eq_ok_iff.mp h₁
    obtain ⟨-, rfl⟩ := Counter.ofBound_eq_ok_iff.mp h₂
    exact Nat.sub_le_sub_right (Int.toNat_le_toNat hb) _
  rw [ht₁, ht₂]
  exact (hs₁.prefixOf hs₂ hle).populate steady hs₁.unread hs₂.unread w.past w.past order₁ order₂

/-- Elements that are their own children and siblings, without end. -/
def endless : Walker Int where
  platform := Script.platform { children := [(0, [1, 2]), (1, [1])], next := [(1, some 1)] }
  options := { mode := .live }
  counter := { bound := 1 }

theorem prefixOf_walkUnder_endless :
    ∃ scan₁ after₁ journal₁ scan₂ after₂ journal₂,
      walkUnder .inOrder { endless with counter := ⟨3, 0, 0⟩ } 2 =
        (.ok scan₁, after₁, journal₁) ∧
      walkUnder .inOrder { endless with counter := ⟨7, 0, 0⟩ } 2 =
        (.ok scan₂, after₂, journal₂) ∧
      scan₁.tree.PrefixOf scan₂.tree :=
  prefixOf_walkUnder (w := endless) (fun past past' h => rfl)
    (show Counter.ofBound 3 = .ok ⟨3, 0, 0⟩ from rfl)
    (show Counter.ofBound 7 = .ok ⟨7, 0, 0⟩ from rfl) (by decide)
    (show endless.runnerNeeded = .ok none from rfl) .inOrder .inOrder 2

end Walker

end UiConformance
