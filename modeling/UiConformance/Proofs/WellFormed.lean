import UiConformance.Platform.Script
import UiConformance.Proofs.Population
import UiConformance.Proofs.Shape

/-!
# Walks are well-formed

Whatever a platform answers, and wherever the budget ends, a walk builds one tree below the topmost
ancestor, and its identifiers are the numbers from that of the topmost ancestor to that of the
element added last.
-/

namespace UiConformance

namespace ElementTree

/-- One tree, in which the selected element comes first, then its ancestors with descending and the
other elements with ascending identifiers. -/
structure WellFormed (t : ElementTree) (ancestors admitted : Nat) : Prop where
  size : t.size = 1 + ancestors + admitted
  rooted : t.RootedAt ancestors
  id?_ancestor : ∀ k ≤ ancestors, t.id? k = some (-(k : Int))
  id?_admitted : ∀ j, 0 < j → j ≤ admitted → t.id? (ancestors + j) = some (j : Int)
  id?_inj : ∀ i j id, t.id? i = some id → t.id? j = some id → i = j
  exists_id?_iff : ∀ id, (∃ i, t.id? i = some id) ↔ -(ancestors : Int) ≤ id ∧ id ≤ admitted
  find?_iff : ∀ id i, t.find? id = some i ↔ t.id? i = some id

theorem wellFormed_of_numbered {t : ElementTree} {a m : Nat} (hs : t.size = 1 + a + m)
    (hr : t.RootedAt a) (hn : t.Numbered a) : t.WellFormed a m := by
  refine ⟨hs, hr, fun k hk => ?_, fun j h1 h2 => ?_, fun i j id hi hj => ?_,
    fun id => hn.exists_id?_iff hs, fun id i => hn.find?_eq_some_iff⟩
  · rw [hn k (by omega), idAt, if_pos hk]
  · rw [hn _ (by omega), idAt, if_neg (by omega)]
    congr 1
    omega
  · exact Option.some.inj ((hn.find?_eq_some_iff.mpr hi).symm.trans (hn.find?_eq_some_iff.mpr hj))

end ElementTree

variable {H : Type}

/-- Elements added unlinked keep the tree once one element takes them among its children. -/
theorem Outline.rootedAt_adopt {o : Outline H} {top q : Nat} (h : o.tree.RootedAt top)
    (hq : q < o.size) (id : Int) (hs : List H) {cs : List Nat}
    (hcs : cs.Perm (o.tree.childrenOf q ++ List.range' o.size hs.length)) :
    ((o.addAll id hs).adopt q cs.toArray).tree.RootedAt top := by
  have hadd : (o.addAll id hs).tree.size = o.size + hs.length := Outline.size_addAll o id hs
  have hsize : ((o.addAll id hs).tree.adopt q cs.toArray).size = o.size + hs.length := by
    rw [ElementTree.size_adopt, hadd]
  have hmem : ∀ j, j ∈ cs ↔ j ∈ o.tree.childrenOf q ∨ (o.size ≤ j ∧ j < o.size + hs.length) :=
    fun j => by rw [hcs.mem_iff, List.mem_append, List.mem_range'_1]
  have hold : ∀ c ∈ o.tree.childrenOf q, c < o.size ∧ o.tree.parent? c = some q :=
    h.parent_of_mem q
  have hin : ∀ c ∈ cs, c < (o.addAll id hs).tree.size := fun c hc => by
    rw [hadd]
    rcases (hmem c).mp hc with hc | hc
    · have := (hold c hc).1
      omega
    · exact hc.2
  change ((o.addAll id hs).tree.adopt q cs.toArray).RootedAt top
  refine h.grow cs hq (by rw [hsize]; exact Nat.le_add_right _ _) (fun j => ?_) (fun j => ?_) ?_
  · rw [hsize, ElementTree.parent?_adopt hin, Outline.parent?_addAll, o.size_tree]
    by_cases hj : j ∈ cs
    · rw [if_pos hj]
      rcases (hmem j).mp hj with hc | hc
      · obtain ⟨h1, h2⟩ := hold j hc
        rw [if_neg (by omega), h2]
      · rw [if_pos hc]
    · rw [if_neg hj, if_neg (fun hc => hj ((hmem j).mpr (.inr hc)))]
  · exact Outline.childrenOf_adopt_addAll hq id hs cs j
  · rw [hsize, o.size_tree, Nat.add_sub_cancel_left]
    exact hcs

/-! ## The shape of a walk -/

variable [DecidableEq H]

namespace Shapes

variable {P : Platform H} {selected : H} {ancestors : List H} {context : Bool} {b : Nat}
  {o : Outline H} {m k : Nat}

theorem size_eq (h : Shapes P selected ancestors context b o m k) :
    o.size = 1 + ancestors.length + m := by
  cases h with
  | alone _ hd =>
    rw [Outline.size_spine_attachAll]
    omega
  | @among as _ _ _ slots _ _ _ hd hs =>
    rw [Outline.size_adopt, Outline.size_addAll, Outline.size_spine_attachAll]
    omega

theorem le_budget (h : Shapes P selected ancestors context b o m k) : m ≤ b := by
  cases h with
  | alone _ hd => exact hd.length_le
  | among _ _ hd hs =>
    have h1 := hd.length_le
    have h2 := hs.length_le
    omega

theorem eq_budget (h : Shapes P selected ancestors context b o m k) (hk : 0 < k) : m = b := by
  cases h with
  | alone _ hd => exact hd.length_eq hk
  | @among _ k _ _ _ l _ _ hd hs =>
    have h1 := hd.length_le
    have h2 := hs.length_le
    rcases Nat.eq_zero_or_pos k with hk0 | hk0
    · have := hs.length_eq (by omega)
      omega
    · have := hd.length_eq hk0
      omega

theorem unread (h : Shapes P selected ancestors context b o m k) : o.Unread := by
  have hsp := Outline.unread_spine selected ancestors
  cases h with
  | alone => exact Outline.unread_attachAll hsp
  | among =>
    exact Outline.unread_adopt (Outline.unread_addAll (Outline.unread_attachAll hsp)) _ _

theorem numbered (h : Shapes P selected ancestors context b o m k) :
    o.tree.Numbered ancestors.length := by
  have hsp := Outline.isSpine_spine selected ancestors
  have hall : ∀ as : List (Nat × H),
      ((Outline.spine selected ancestors).attachAll 1 as).tree.Numbered ancestors.length :=
    fun as => Outline.numbered_attachAll hsp.numbered (by rw [hsp.size]; omega)
      (by rw [hsp.size]; omega)
  cases h with
  | alone => exact hall _
  | @among as _ _ _ slots =>
    have hadd : (((Outline.spine selected ancestors).attachAll 1 as).addAll (1 + as.length)
        (newcomers slots)).tree.Numbered ancestors.length :=
      Outline.numbered_addAll (hall as) (by rw [Outline.size_spine_attachAll]; omega)
        (by rw [Outline.size_spine_attachAll]; omega)
    intro i hi
    simp only [Outline.adopt, ElementTree.size_adopt] at hi
    simp only [Outline.adopt, ElementTree.id?_adopt]
    exact hadd i hi

theorem rooted (h : Shapes P selected ancestors context b o m k) :
    o.tree.RootedAt ancestors.length := by
  cases h with
  | alone _ hd => exact Outline.rootedAt_spine_attachAll selected (hd.fits (Nat.succ_pos _))
  | @among as _ above rest slots _ _ hanc hd hs =>
    have hsp := Outline.isSpine_spine selected ancestors
    have hpos : 0 < ancestors.length := by rw [hanc]; exact Nat.succ_pos _
    have hn := Outline.size_spine_attachAll selected ancestors as
    have hch : ((Outline.spine selected ancestors).attachAll 1 as).tree.childrenOf 1 = [0] := by
      rw [ElementTree.childrenOf, Outline.node?_attachAll_of_ne (by rw [hsp.size]; omega)]
      · exact hsp.childrenOf hpos
      · intro a ha
        rcases hd.parent_mem a ha with e | e <;> omega
    have hrooted := Outline.rootedAt_spine_attachAll selected (hd.fits (Nat.succ_pos _))
    refine Outline.rootedAt_adopt hrooted (by omega) _ _ ?_
    have hperm := positions_perm 0 (ancestors.length + 1 + as.length) (filled slots)
    rw [countP_filled hs.countP_le, newcomers_filled] at hperm
    rw [hch, hn]
    exact hperm

end Shapes

/-! ## Walks -/

namespace Walker

section

variable {w after : Walker H} {selected : H} {scan : ScanTree} {c : Counter} {o : Outline H}
  {m k : Nat} {b : Int}

/-- With a fresh counter only the ancestors were asked for before the other elements. -/
theorem Draws.tracks (h : w.Draws selected scan after c o m k)
    (hb : Counter.ofBound b = .ok w.counter) :
    (c.bound : Int) = b ∧
      c.Tracks (min (ancestry w.platform selected).1.length Text.int32Max) := by
  obtain ⟨_, hadd⟩ := h.counted
  obtain ⟨hbound, htracks⟩ := (Counter.tracks_ofBound hb).tryAdd hadd
  rw [Nat.zero_add] at htracks
  exact ⟨by rw [hbound, Counter.bound_ofBound hb], htracks⟩

theorem Draws.size_tree_eq (h : w.Draws selected scan after c o m k) :
    scan.tree.size = 1 + (ancestry w.platform selected).1.length + m := by
  obtain ⟨-, hs, -, ⟨order, ht, -⟩, -, -⟩ := h
  rw [ht, (o.sameLinks_populate w.platform w.past order).size]
  exact hs.size_eq

end

/-- A successful walk gives a well-formed tree, of the ancestors that were resolved and of what the
counter admitted after them. -/
theorem wellFormed_walkUnder {w after : Walker H} {s : Schedule} {selected : H} {scan : ScanTree}
    {journal : Journal} (h : w.walkUnder s selected = (.ok scan, after, journal)) :
    ∃ counted c m,
      w.counter.tryAdd (min (ancestry w.platform selected).1.length Text.int32Max : Nat) =
        .ok (counted, c) ∧
      after.counter.count = c.count + m ∧
      scan.topMost = (ancestry w.platform selected).1.length ∧
      scan.tree.WellFormed (ancestry w.platform selected).1.length m := by
  cases hr : w.runnerNeeded with
  | error e =>
    unfold walkUnder at h
    rw [hr] at h
    cases h
  | ok r =>
    obtain ⟨scan', after', journal', c, o, m, k, hw, hd⟩ := exists_shape hr s selected
    rw [hw] at h
    obtain ⟨rfl, rfl, -⟩ : scan' = scan ∧ after' = after ∧ journal' = journal := by
      simpa using h
    obtain ⟨⟨counted, hadd⟩, hs, hc, ⟨order, ht, -⟩, htop, -⟩ := hd
    refine ⟨counted, c, m, hadd, ?_, htop, ?_⟩
    · have hm := hs.le_budget
      rw [hc, Counter.count_spend]
      rcases Nat.eq_zero_or_pos k with hk | hk
      · omega
      · have := hs.eq_budget hk
        omega
    · have hlinks := o.sameLinks_populate w.platform w.past order
      rw [← ht] at hlinks
      exact ElementTree.wellFormed_of_numbered (hlinks.size.trans hs.size_eq)
        (hlinks.rootedAt hs.rooted) (hlinks.numbered hs.numbered)

/-- The element 2 comes after 1 and 1 after 2, so that siblings go round in a loop. -/
def looping : Walker Int where
  platform := Script.platform { children := [(0, [1, 2]), (1, [3])], next := [(2, some 1)] }
  options := { mode := .live, parallel := false }
  counter := { bound := 9 }

theorem wellFormed_walkUnder_looping :
    ∃ scan after journal, looping.walkUnder .inOrder 1 = (.ok scan, after, journal) ∧
      scan.topMost = 1 ∧ scan.tree.WellFormed 1 2 := by
  have h : ∃ scan after journal, looping.walkUnder .inOrder 1 = (.ok scan, after, journal) ∧
      scan.tree.size = 4 := ⟨_, _, _, rfl, rfl⟩
  obtain ⟨scan, after, journal, hw, hs⟩ := h
  obtain ⟨_, _, m, -, -, htop, hwf⟩ := wellFormed_walkUnder hw
  have hm : scan.tree.size = 1 + 1 + m := hwf.size
  obtain rfl : m = 2 := by omega
  exact ⟨scan, after, journal, hw, htop, hwf⟩

end Walker

end UiConformance
