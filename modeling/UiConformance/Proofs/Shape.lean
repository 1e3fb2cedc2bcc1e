import UiConformance.Proofs.Population
import UiConformance.Proofs.Sweep
import UiConformance.Walk.Walker

/-!
# The shape of a walk

The tree of a walk is the selected element with its ancestors above it, then what a descent admits,
then, where the context is asked for and there is a parent, the siblings that a sweep takes.
`Shapes P selected ancestors context b o m k` puts these phases together: under the budget `b` that
the ancestors leave, the outline is `o`, `m` elements were admitted after the ancestors and `k`
requests refused. `exists_shape` reduces a walk to it.
-/

namespace UiConformance

variable {H : Type}

/-! ## Ancestors -/

namespace Outline

/-- The element at a position of a spine with so many ancestors. -/
def spineNode (ancestors i : Nat) : ElementNode :=
  { id := -(i : Int)
    parent := if i < ancestors then some (i + 1) else none
    children := if i = 0 then #[] else #[i - 1] }

/-- The selected element at 0 and each ancestor, the nearest first, right above the one before. -/
structure IsSpine (o : Outline H) (selected : H) (ancestors : List H) : Prop where
  size : o.size = ancestors.length + 1
  handles : o.handles.toList = selected :: ancestors
  node? : ∀ i ≤ ancestors.length, o.tree.node? i = some (spineNode ancestors.length i)
  rooted : o.tree.RootedAt ancestors.length

theorem isSpine_add (selected : H) : (add {} selected 0).IsSpine selected [] := by
  refine ⟨rfl, rfl, fun i hi => ?_, ElementTree.rootedAt_singleton 0⟩
  obtain rfl : i = 0 := Nat.le_zero.mp hi
  rfl

theorem IsSpine.snoc {o : Outline H} {selected : H} {hs : List H} (h : o.IsSpine selected hs)
    (a : H) :
    ((o.add a (-(hs.length : Int) - 1)).link o.size hs.length).IsSpine selected (hs ++ [a]) := by
  obtain ⟨hsz, hh, hn, hr⟩ := h
  have hts : o.tree.size = hs.length + 1 := hsz
  refine ⟨?_, ?_, fun i hi => ?_, ?_⟩
  · show ((o.tree.push _).link _ _).size = _
    simp [hts]
  · simp [link, add, hh]
  · rw [List.length_append, List.length_singleton] at hi ⊢
    show ((o.tree.push _).link _ _).node? i = _
    rw [ElementTree.node?_link, ElementTree.node?_push, hts, hsz]
    by_cases he : i = hs.length + 1
    · subst he
      rw [if_pos rfl, Option.map_some]
      simp [spineNode]
      omega
    · rw [if_neg he, hn i (by omega), Option.map_some]
      unfold spineNode
      by_cases hk : i = hs.length
      · simp [hk]
      · simp [hk, he, show i < hs.length by omega, show i < hs.length + 1 by omega]
  · rw [List.length_append, List.length_singleton, ← hts]
    show ((o.tree.push _).link o.tree.size _).RootedAt _
    exact hr.push_above _

theorem isSpine_addAncestors {o : Outline H} {selected : H} (hs ks : List H)
    (h : o.IsSpine selected ks) :
    (addAncestors hs ks.length (-(ks.length : Int) - 1) o).1 = (ks ++ hs).length ∧
      (addAncestors hs ks.length (-(ks.length : Int) - 1) o).2.IsSpine selected (ks ++ hs) := by
  induction hs generalizing o ks with
  | nil => rw [List.append_nil]; exact ⟨rfl, h⟩
  | cons a hs ih =>
    have hi := ih (ks ++ [a]) (h.snoc a)
    rw [List.append_assoc, List.singleton_append, List.length_append, List.length_singleton,
      show -((ks.length + 1 : Nat) : Int) - 1 = -(ks.length : Int) - 1 - 1 by omega] at hi
    rw [addAncestors, h.size]
    rw [h.size] at hi
    exact hi

/-- The selected element with its ancestors above it, as a walk starts with them. -/
def spine (selected : H) (ancestors : List H) : Outline H :=
  (Walker.startDraft selected ancestors { bound := 0 } #[]).2.outline

theorem isSpine_spine (selected : H) (ancestors : List H) :
    (spine selected ancestors).IsSpine selected ancestors :=
  (isSpine_addAncestors ancestors [] (isSpine_add selected)).2

theorem addAncestors_fst (selected : H) (ancestors : List H) :
    (addAncestors ancestors 0 (-1) (add {} selected 0)).1 = ancestors.length :=
  (isSpine_addAncestors ancestors [] (isSpine_add selected)).1

theorem unread_addAncestors {o : Outline H} (ho : o.Unread) (hs : List H) (child : Nat) (id : Int) :
    (addAncestors hs child id o).2.Unread := by
  induction hs generalizing o child id with
  | nil => exact ho
  | cons h hs ih => exact ih (unread_link (unread_add ho _ _) _ _) _ _

theorem unread_spine (selected : H) (ancestors : List H) : (spine selected ancestors).Unread := by
  refine unread_addAncestors (unread_add ?_ selected 0) ancestors 0 (-1)
  intro i n hn
  cases hn

namespace IsSpine

variable {o : Outline H} {selected : H} {ancestors : List H}

theorem numbered (h : o.IsSpine selected ancestors) : o.tree.Numbered ancestors.length := by
  intro i hi
  have hle : i ≤ ancestors.length := by
    have : o.tree.size = ancestors.length + 1 := h.size
    omega
  rw [ElementTree.id?, h.node? i hle, ElementTree.idAt, if_pos hle]
  rfl

theorem childrenOf (h : o.IsSpine selected ancestors) {i : Nat} (hi : i ≤ ancestors.length) :
    o.tree.childrenOf i = if i = 0 then [] else [i - 1] := by
  rw [ElementTree.childrenOf, h.node? i hi]
  simp only [Option.map_some, Option.getD_some, spineNode]
  split <;> rfl

theorem parent? (h : o.IsSpine selected ancestors) {i : Nat} (hi : i ≤ ancestors.length) :
    o.tree.parent? i = if i < ancestors.length then some (i + 1) else none := by
  rw [ElementTree.parent?, h.node? i hi]
  rfl

end IsSpine

theorem size_spine_attachAll (selected : H) (ancestors : List H) (as : List (Nat × H)) :
    ((spine selected ancestors).attachAll 1 as).size = ancestors.length + 1 + as.length := by
  rw [size_attachAll, (isSpine_spine selected ancestors).size]

theorem rootedAt_spine_attachAll (selected : H) {ancestors : List H} {as : List (Nat × H)}
    (hf : Fits (ancestors.length + 1) as) :
    ((spine selected ancestors).attachAll 1 as).tree.RootedAt ancestors.length := by
  refine rootedAt_attachAll (isSpine_spine selected ancestors).rooted ?_
  rw [(isSpine_spine selected ancestors).size]
  exact hf

end Outline

/-! ## The phases together -/

/-- The outlines that a walk may draw under a budget, with the number of elements admitted after
the ancestors and the number of refused requests. -/
inductive Shapes [DecidableEq H] (P : Platform H) (selected : H) (ancestors : List H)
    (context : Bool) (b : Nat) : Outline H → Nat → Nat → Prop
  /-- Without siblings. -/
  | alone {as : List (Nat × H)} {k : Nat} :
      context = false ∨ ancestors = [] →
      Descends P b (ancestors.length + 1) 0 (P.reach? .firstChild selected) as k →
      Shapes P selected ancestors context b
        ((Outline.spine selected ancestors).attachAll 1 as) as.length k
  /-- With the siblings below the parent. -/
  | among {as : List (Nat × H)} {k : Nat} {above : H} {rest : List H} {slots : List (Option H)}
      {l : Nat} :
      context = true → ancestors = above :: rest →
      Descends P b (ancestors.length + 1) 0 (P.reach? .firstChild selected) as k →
      Sweeps P selected (b - as.length) false (P.reach? .firstChild above) slots l →
      Shapes P selected ancestors context b
        ((((Outline.spine selected ancestors).attachAll 1 as).addAll (1 + as.length)
          (newcomers slots)).adopt 1
            (positions 0 (ancestors.length + 1 + as.length) (filled slots)).toArray)
        (as.length + (newcomers slots).length) (k + l)

namespace Draft

theorem descends_addSubtree (P : Platform H) {d : Draft H} {root : Nat} {h : H}
    (hh : d.outline.handles[root]? = some h) :
    ∃ as k, Descends P d.counter.remaining d.outline.size root (P.reach? .firstChild h) as k ∧
      d.GrownBy (d.addSubtree P root) as k := by
  obtain ⟨as, k, hd, hg⟩ := Descent.descends_run (P := P) (d.ask P .firstChild h).2 root
    (d.ask P .firstChild h).1
  rw [counter_ask, outline_ask, ask_fst] at hd
  refine ⟨as, k, hd, ?_⟩
  have he : d.addSubtree P root =
      (Descent.run P ⟨(d.ask P .firstChild h).2, [⟨root, (d.ask P .firstChild h).1⟩]⟩).draft := by
    unfold addSubtree
    rw [hh]
  rw [he]
  obtain ⟨ho, hn, hc⟩ := hg
  rw [outline_ask, nextId_ask] at ho
  rw [nextId_ask] at hn
  rw [counter_ask] at hc
  exact ⟨ho, hn, hc⟩

theorem exists_shapes [DecidableEq H] (P : Platform H) (context : Bool) {d : Draft H}
    {selected : H} {ancestors : List H} (ho : d.outline = Outline.spine selected ancestors)
    (hid : d.nextId = 1) :
    ∃ m k, Shapes P selected ancestors context d.counter.remaining
        (if context then (d.addSubtree P 0).addSiblings P 0 else d.addSubtree P 0).outline m k ∧
      (if context then (d.addSubtree P 0).addSiblings P 0 else d.addSubtree P 0).counter =
        d.counter.spend (m + k) := by
  have hsp := Outline.isSpine_spine selected ancestors
  have hsize : d.outline.size = ancestors.length + 1 := by rw [ho, hsp.size]
  have hhandle : ∀ i, d.outline.handles[i]? = (selected :: ancestors)[i]? := fun i => by
    rw [ho, ← Array.getElem?_toList, hsp.handles]
  obtain ⟨as, k, hd, hg⟩ := descends_addSubtree P (hhandle 0)
  rw [hsize] at hd
  have hgo : (d.addSubtree P 0).outline = (Outline.spine selected ancestors).attachAll 1 as := by
    rw [hg.outline, ho, hid]
  have halone : context = false ∨ ancestors = [] →
      Shapes P selected ancestors context d.counter.remaining (d.addSubtree P 0).outline
        as.length k := fun h => by
    rw [hgo]
    exact .alone h hd
  cases context with
  | false => exact ⟨as.length, k, halone (.inl rfl), hg.counter⟩
  | true =>
    rw [if_pos rfl]
    have hpar : (d.addSubtree P 0).outline.parent? 0 =
        if 0 < ancestors.length then some 1 else none := by
      rw [hgo]
      refine (Outline.parent?_attachAll ?_).trans (hsp.parent? (Nat.zero_le _))
      rw [hsp.size]
      exact Nat.succ_pos _
    cases ancestors with
    | nil =>
      have he : (d.addSubtree P 0).addSiblings P 0 = d.addSubtree P 0 := by
        unfold addSiblings
        rw [hpar]; rfl
      rw [he]
      exact ⟨as.length, k, halone (.inr rfl), hg.counter⟩
    | cons above rest =>
      have hh : ∀ i < rest.length + 2, (d.addSubtree P 0).outline.handles[i]? =
          (selected :: above :: rest)[i]? := fun i hi => by
        rw [hg.outline, Outline.handles_attachAll_of_lt, hhandle]
        rw [hsize]; exact hi
      obtain ⟨slots, l, hs, hso, hsc⟩ := exists_sweeps P hpar
        (hh 0 (by omega)) (hh 1 (by omega))
      rw [hg.remaining_eq hd] at hs
      rw [hg.size_eq, hsize, hg.nextId, hid, hgo] at hso
      refine ⟨as.length + (newcomers slots).length, k + l, ?_, ?_⟩
      · rw [hso]
        exact .among rfl rfl hd hs
      · rw [hsc, hg.counter, ← Counter.spend_add]
        congr 1; omega

end Draft

/-! ## Walks -/

namespace Walker

variable [DecidableEq H]

/-- A walk of `w` from `selected` was successful: with the counter `c` after its ancestors were
counted it drew `o` and read what its elements are. -/
structure Draws (w : Walker H) (selected : H) (scan : ScanTree) (after : Walker H) (c : Counter)
    (o : Outline H) (admitted refused : Nat) : Prop where
  counted : ∃ b, w.counter.tryAdd
    (min (ancestry w.platform selected).1.length Text.int32Max : Nat) = .ok (b, c)
  shapes : Shapes w.platform selected (ancestry w.platform selected).1 w.options.siblingContext
    c.remaining o admitted refused
  counter : after.counter = c.spend (admitted + refused)
  populated : ∃ order, scan.tree = (o.populate w.platform w.past order).tree ∧
    scan.unpopulated = (o.populate w.platform w.past order).unpopulated
  topMost : scan.topMost = (ancestry w.platform selected).1.length
  truncated : scan.truncated = after.counter.exceeded

/-- The order of the parallel pass over so many elements, where there is one. -/
def readOrder (w : Walker H) (s : Schedule) (n : Nat) : Option (List Nat) :=
  if w.options.parallel then some (s.read n) else none

/-- What a walk drew it populated in the order of the schedule. -/
theorem exists_draws {w : Walker H} {r : Option Runner} (hr : w.runnerNeeded = .ok r)
    (s : Schedule) (selected : H) :
    ∃ scan after journal c o m k, w.walkUnder s selected = (.ok scan, after, journal) ∧
      w.Draws selected scan after c o m k ∧
      scan.tree = (o.populate w.platform w.past (w.readOrder s o.size)).tree ∧
      scan.unpopulated = (o.populate w.platform w.past (w.readOrder s o.size)).unpopulated ∧
      after.past = (o.populate w.platform w.past (w.readOrder s o.size)).past := by
  obtain ⟨b, c, hadd⟩ : ∃ b c, w.counter.tryAdd
      (min (ancestry w.platform selected).1.length Text.int32Max : Nat) = .ok (b, c) :=
    ⟨_, _, Counter.tryAdd_natCast _ _⟩
  let start : Draft H :=
    { outline := Outline.spine selected (ancestry w.platform selected).1
      counter := c
      notices := ((ancestry w.platform selected).2 ++ if b then #[] else
        #[Notice.ancestorsOverLimit
          (min (ancestry w.platform selected).1.length Text.int32Max)]).push
            (.transition .idle .ancestryResolved) }
  obtain ⟨m, k, hs, hc⟩ :=
    Draft.exists_shapes w.platform w.options.siblingContext (d := start) rfl rfl
  match h : w.walkUnder s selected with
  | (out, after, journal) =>
    unfold walkUnder at h
    rw [hr] at h
    simp only [hadd] at h
    obtain ⟨rfl, rfl, rfl⟩ := h
    exact ⟨_, _, _, c, _, m, k, rfl, ⟨⟨b, hadd⟩, hs, hc, ⟨_, rfl, rfl⟩,
      Outline.addAncestors_fst selected _, rfl⟩, rfl, rfl, rfl⟩

/-- A walk succeeds where it has the runner it needs. -/
theorem exists_shape {w : Walker H} {r : Option Runner} (hr : w.runnerNeeded = .ok r)
    (s : Schedule) (selected : H) :
    ∃ scan after journal c o m k, w.walkUnder s selected = (.ok scan, after, journal) ∧
      w.Draws selected scan after c o m k := by
  obtain ⟨scan, after, journal, c, o, m, k, hw, hd, -⟩ := exists_draws hr s selected
  exact ⟨scan, after, journal, c, o, m, k, hw, hd⟩

end Walker

end UiConformance
