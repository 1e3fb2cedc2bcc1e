import UiConformance.Proofs.Outcome
import UiConformance.Proofs.Resemblance

/-!
# Walks with and without the siblings

With the sibling context a walk draws the same elements first, and then leaves below the parent.
`t.FlankedIn selected t'` says so of the two trees. Only the parent sees the leaves among its
children, so that every other element resembles what it is without them, and shallow rules give it
the same results.
-/

namespace UiConformance

/-! ## Trees -/

namespace ElementTree

/-- The elements of the one are there in the other at the same positions, and all that is new are
leaves beside the selected element, below the element -1. -/
structure FlankedIn (selected : Nat) (t t' : ElementTree) : Prop where
  size_le : t.size ≤ t'.size
  /-- Only the children of the element -1 differ. -/
  node? : ∀ i n, t.node? i = some n → ∃ cs : Array Nat,
    t'.node? i = some { n with children := cs } ∧ (n.id ≠ -1 → cs = n.children)
  /-- The selected element is the only one that it has in both. -/
  parent : ∀ i, t.id? i = some (-1) →
    t.childrenOf i = [selected] ∧ (t'.childrenOf i).filter (· < t.size) = [selected]
  leaf : ∀ j, t.size ≤ j → j < t'.size → t'.childrenOf j = []
  below : ∀ j, t.size ≤ j → j < t'.size →
    ∃ p, t'.parent? j = some p ∧ t'.id? p = some (-1) ∧ j ∈ t'.childrenOf p
  /-- New elements have larger identifiers. -/
  id?_lt : ∀ i j id id', t.id? i = some id → t.size ≤ j → t'.id? j = some id' → id < id'

variable {t t' u u' : ElementTree} {selected a i j : Nat}

theorem idAt_eq_neg_one_iff (ha : 0 < a) : idAt a i = -1 ↔ i = 1 := by
  unfold idAt
  split <;> omega

theorem idAt_lt_idAt (hij : i < j) (ha : a < j) : idAt a i < idAt a j := by
  unfold idAt
  split <;> split <;> omega

theorem Numbered.flankedIn_self (h : t.Numbered 0) (selected : Nat) : t.FlankedIn selected t := by
  have hne : ∀ i, t.id? i ≠ some (-1) := fun i hi => by
    have hid := (h.id?_eq_some_iff.mp hi).2
    unfold idAt at hid
    split at hid <;> omega
  exact
    { size_le := Nat.le_refl _
      node? := fun i n hn => ⟨n.children, hn, fun _ => rfl⟩
      parent := fun i hi => absurd hi (hne i)
      leaf := fun j h1 h2 => absurd h2 (Nat.not_lt.mpr h1)
      below := fun j h1 h2 => absurd h2 (Nat.not_lt.mpr h1)
      id?_lt := fun i j id id' _ h1 hj =>
        absurd (h.id?_eq_some_iff.mp hj).1 (Nat.not_lt.mpr h1) }

/-- What is said of links stays true where links do not change. -/
theorem FlankedIn.of_sameLinks (h : t.FlankedIn selected t') (hu : t.SameLinks u)
    (hu' : t'.SameLinks u') (hnode : ∀ i n, u.node? i = some n → ∃ cs : Array Nat,
      u'.node? i = some { n with children := cs } ∧ (n.id ≠ -1 → cs = n.children)) :
    u.FlankedIn selected u' where
  size_le := by
    rw [hu.size, hu'.size]
    exact h.size_le
  node? := hnode
  parent i hi := by
    rw [hu.id?] at hi
    rw [hu.childrenOf, hu'.childrenOf, hu.size]
    exact h.parent i hi
  leaf j h1 h2 := by
    rw [hu.size] at h1
    rw [hu'.size] at h2
    rw [hu'.childrenOf]
    exact h.leaf j h1 h2
  below j h1 h2 := by
    rw [hu.size] at h1
    rw [hu'.size] at h2
    obtain ⟨p, hp, hid, hj⟩ := h.below j h1 h2
    refine ⟨p, ?_, ?_, ?_⟩
    · rw [hu'.parent?, hp]
    · rw [hu'.id?, hid]
    · rw [hu'.childrenOf]
      exact hj
  id?_lt i j id id' hi h1 hj := by
    rw [hu.id?] at hi
    rw [hu.size] at h1
    rw [hu'.id?] at hj
    exact h.id?_lt i j id id' hi h1 hj

end ElementTree

/-! ## Outlines -/

/-- The positions of the context are that of the selected element and new ones. -/
theorem mem_positions_filled_iff {H : Type} [DecidableEq H] {slots : List (Option H)}
    {index n j : Nat} (hc : slots.countP Option.isNone ≤ 1) :
    j ∈ positions index n (filled slots) ↔
      j = index ∨ (n ≤ j ∧ j < n + (newcomers slots).length) := by
  rw [(positions_perm index n (filled slots)).mem_iff, countP_filled hc, newcomers_filled,
    List.mem_append, List.mem_range'_1]
  simp

namespace Outline

variable {H : Type} {o o' : Outline H} {a : Nat} {id : Int}

section Flank

variable [DecidableEq H] {slots : List (Option H)}

/-- The outline with the slots of a sweep below the parent of the selected element. -/
def flank (o : Outline H) (id : Int) (slots : List (Option H)) : Outline H :=
  (o.addAll id (newcomers slots)).adopt 1 (positions 0 o.size (filled slots)).toArray

theorem size_flank (o : Outline H) (id : Int) (slots : List (Option H)) :
    (o.flank id slots).size = o.size + (newcomers slots).length := by
  rw [flank, size_adopt, size_addAll]

theorem handles_flank (o : Outline H) (id : Int) (slots : List (Option H)) :
    (o.flank id slots).handles.toList = o.handles.toList ++ newcomers slots :=
  handles_addAll o id (newcomers slots)

theorem childrenOf_flank (h : 1 < o.size) (id : Int) (slots : List (Option H)) (i : Nat) :
    (o.flank id slots).tree.childrenOf i =
      if i = 1 then positions 0 o.size (filled slots) else o.tree.childrenOf i :=
  childrenOf_adopt_addAll h id (newcomers slots) _ i

theorem numbered_flank (hn : o.tree.Numbered a) (hlt : a < o.size) (hid : id = o.size - a)
    (slots : List (Option H)) : (o.flank id slots).tree.Numbered a := by
  intro j hj
  rw [size_tree, size_flank] at hj
  refine (ElementTree.id?_adopt ..).trans (numbered_addAll hn hlt hid j ?_)
  rw [size_tree, size_addAll]
  exact hj

theorem parent?_flank (hc : slots.countP Option.isNone ≤ 1) (h : 1 < o.size) {j : Nat}
    (hj : j ∈ positions 0 o.size (filled slots)) : (o.flank id slots).tree.parent? j = some 1 := by
  refine (ElementTree.parent?_adopt fun c hm => ?_).trans (if_pos hj)
  rw [size_tree, size_addAll]
  rcases (mem_positions_filled_iff hc).mp hm with rfl | ⟨-, hlt⟩
  · omega
  · exact hlt

/-- Of the elements that were there only the selected one is adopted, by the parent it has. -/
theorem node?_flank (hc : slots.countP Option.isNone ≤ 1) (hp : o.tree.parent? 0 = some 1)
    {i : Nat} {n : ElementNode} (hi : o.tree.node? i = some n) :
    (o.flank id slots).tree.node? i = some { n with
      children := if i = 1 then (positions 0 o.size (filled slots)).toArray else n.children } := by
  have hlt : i < o.size := ElementTree.lt_size_of_node? hi
  have hkept : (if i ∈ positions 0 o.size (filled slots) then some 1 else n.parent) =
      n.parent := by
    split
    · next hm =>
      rcases (mem_positions_filled_iff hc).mp hm with rfl | ⟨hge, -⟩
      · rw [ElementTree.parent?, hi] at hp
        exact hp.symm
      · omega
    · rfl
  show ((o.addAll _ _).tree.adopt _ _).node? i = _
  rw [ElementTree.node?_adopt, node?_addAll, if_neg (by omega), hi, Option.map_some]
  simp only [hkept]

theorem flankedIn_flank (ha : 0 < a) (hn : o.tree.Numbered a) (hlt : a < o.size)
    (hp : o.tree.parent? 0 = some 1) (hchildren : o.tree.childrenOf 1 = [0])
    (hc : slots.countP Option.isNone ≤ 1) (hid : id = o.size - a) :
    o.tree.FlankedIn 0 (o.flank id slots).tree := by
  have hone : 1 < o.size := by omega
  have hn' := numbered_flank hn hlt hid slots
  have hminus : ∀ {i}, o.tree.id? i = some (-1) → i = 1 := fun hi =>
    (ElementTree.idAt_eq_neg_one_iff ha).mp (hn.id?_eq_some_iff.mp hi).2
  have hplus : (o.flank id slots).tree.id? 1 = some (-1) := by
    refine hn'.id?_eq_some_iff.mpr ⟨?_, (ElementTree.idAt_eq_neg_one_iff ha).mpr rfl⟩
    rw [size_tree, size_flank]
    omega
  refine
    { size_le := ?_
      node? := fun i n hi => ?_
      parent := fun i hi => ?_
      leaf := fun j h1 h2 => ?_
      below := fun j h1 h2 => ?_
      id?_lt := fun i j id id' hi h1 hj => ?_ }
  · rw [size_tree, size_tree, size_flank]
    exact Nat.le_add_right _ _
  · refine ⟨_, node?_flank hc hp hi, fun hne => if_neg fun h => hne ?_⟩
    subst h
    have hid := hn 1 hone
    rw [ElementTree.id?, hi, Option.map_some, Option.some.injEq] at hid
    exact hid.trans ((ElementTree.idAt_eq_neg_one_iff ha).mpr rfl)
  · obtain rfl := hminus hi
    refine ⟨hchildren, ?_⟩
    rw [childrenOf_flank hone, if_pos rfl, size_tree, filter_positions (by omega) (Nat.le_refl _),
      countP_filled hc]
    rfl
  · rw [size_tree] at h1
    rw [childrenOf_flank hone, if_neg (by omega), ElementTree.childrenOf_of_ge h1]
  · rw [size_tree] at h1
    rw [size_tree, size_flank] at h2
    have hj : j ∈ positions 0 o.size (filled slots) :=
      (mem_positions_filled_iff hc).mpr (.inr ⟨h1, h2⟩)
    refine ⟨1, parent?_flank hc hone hj, hplus, ?_⟩
    rw [childrenOf_flank hone, if_pos rfl]
    exact hj
  · obtain ⟨hilt, rfl⟩ := hn.id?_eq_some_iff.mp hi
    obtain ⟨-, rfl⟩ := hn'.id?_eq_some_iff.mp hj
    rw [size_tree] at h1 hilt
    exact ElementTree.idAt_lt_idAt (by omega) (by omega)

end Flank

/-- Readings keep what is there without the leaves. -/
theorem flankedIn_populate {P : Platform H} (steady : P.Steady)
    (h : o.tree.FlankedIn 0 o'.tree) (hh : o.handles.toList <+: o'.handles.toList)
    (ho : o.Unread) (ho' : o'.Unread) (past past' : List H) (order order' : Option (List Nat)) :
    (o.populate P past order).tree.FlankedIn 0 (o'.populate P past' order').tree := by
  have hlinks := o.sameLinks_populate P past order
  refine h.of_sameLinks hlinks (o'.sameLinks_populate P past' order') fun i m hm => ?_
  have hi : i < o.tree.size := by
    rw [← hlinks.size]
    exact ElementTree.lt_size_of_node? hm
  obtain ⟨n, hn⟩ := ElementTree.exists_node? hi
  obtain ⟨b, hb⟩ : ∃ b, o.handles[i]? = some b :=
    ⟨_, Array.getElem?_eq_getElem (by rw [o.aligned]; exact hi)⟩
  rw [node?_populate steady ho past order hn hb] at hm
  obtain rfl := Option.some.inj hm
  obtain ⟨cs, hcs, hsame⟩ := h.node? i n hn
  have hb' : o'.handles[i]? = some b := by
    obtain ⟨more, hmore⟩ := hh
    rw [← Array.getElem?_toList] at hb ⊢
    rw [← hmore, List.getElem?_append_left, hb]
    exact (List.getElem?_eq_some_iff.mp hb).1
  rw [node?_populate steady ho' past' order' hcs hb']
  unfold Platform.settle
  split
  · exact ⟨cs, rfl, hsame⟩
  · exact ⟨cs, rfl, hsame⟩

end Outline

/-- The shape of a walk with the context is that of the walk without it, with leaves. -/
theorem Shapes.flankedIn {H : Type} [DecidableEq H] {P : Platform H} {selected : H}
    {ancestors : List H} {b : Nat} {o o' : Outline H} {m m' k k' : Nat}
    (h : Shapes P selected ancestors false b o m k)
    (h' : Shapes P selected ancestors true b o' m' k') :
    o.tree.FlankedIn 0 o'.tree ∧ o.handles.toList <+: o'.handles.toList := by
  have hnumbered := h.numbered
  have hsp := Outline.isSpine_spine selected ancestors
  cases h with
  | among hyes => cases hyes
  | @alone as k _ hd =>
    cases h' with
    | alone hno hd' =>
      obtain ⟨rfl, -⟩ := hd.unique hd'
      obtain rfl : ancestors = [] := hno.resolve_left Bool.true_eq_false.mp
      exact ⟨hnumbered.flankedIn_self 0, List.prefix_rfl⟩
    | @among as' k' above rest slots l _ hanc hd' hs =>
      obtain ⟨rfl, -⟩ := hd.unique hd'
      have hpos : 0 < ancestors.length := by
        rw [hanc]
        exact Nat.succ_pos _
      have hsize := Outline.size_spine_attachAll selected ancestors as
      have hparent : ((Outline.spine selected ancestors).attachAll 1 as).tree.parent? 0 = some 1 := by
        rw [Outline.parent?_attachAll (by rw [hsp.size]; omega), hsp.parent? (Nat.zero_le _),
          if_pos hpos]
      -- Everything is attached below the selected element, none of it to the parent.
      have hchildren : ((Outline.spine selected ancestors).attachAll 1 as).tree.childrenOf 1 =
          [0] := by
        rw [ElementTree.childrenOf, Outline.node?_attachAll_of_ne (by rw [hsp.size]; omega)]
        · exact (hsp.childrenOf hpos).trans (if_neg Nat.one_ne_zero)
        · intro b hb
          rcases hd.parent_mem b hb with e | e <;> omega
      rw [← hsize]
      refine ⟨Outline.flankedIn_flank hpos hnumbered (by omega) hparent hchildren hs.countP_le
        (by rw [hsize]; omega), ?_⟩
      show _ <+: (Outline.flank _ _ slots).handles.toList
      rw [Outline.handles_flank]
      exact List.prefix_append _ _

/-! ## Results -/

/-- An element other than the parent looks as it does without the leaves. -/
theorem ElementTree.FlankedIn.resembles {selected : Nat} {e e' : Element}
    (h : e.tree.FlankedIn selected e'.tree) (hc : e.tree.Closed) (hi : e.index = e'.index)
    (hne : e.id ≠ -1) : e.Resembles e' ∧ e.id = e'.id := by
  obtain ⟨cs, hcs, hsame⟩ := h.node? e.index e.node (ElementTree.node?_index rfl)
  obtain rfl := hsame hne
  rw [hi, ElementTree.node?_index rfl] at hcs
  have hnode : e'.node = e.node := Option.some.inj hcs
  refine ⟨⟨?_, ?_⟩, ?_⟩
  · rw [Element.content, Element.content, hnode]
  · rw [e.children_eq, e'.children_eq]
    have hlist : e'.tree.childrenOf e'.index = e.tree.childrenOf e.index := by
      rw [ElementTree.childrenOf, ElementTree.childrenOf, ElementTree.node?_index rfl,
        ElementTree.node?_index rfl, hnode]
    rw [hlist]
    refine List.rel_filterMap (R := fun c c' => c = c' ∧ c < e.tree.size) ?_
      (List.forall₂_same.mpr fun c hm => ⟨rfl, hc e.index c hm⟩)
    rintro c _ ⟨rfl, hlt⟩
    have hlt' := Nat.lt_of_lt_of_le hlt h.size_le
    rw [Element.at?, Element.at?, dif_pos hlt, dif_pos hlt']
    refine .some ?_
    obtain ⟨n, hn⟩ := ElementTree.exists_node? hlt
    obtain ⟨ds, hds, -⟩ := h.node? c n hn
    have hk := ElementTree.node?_index (e := ⟨e.tree, c, hlt⟩) (t := e.tree) rfl
    have hk' := ElementTree.node?_index (e := ⟨e'.tree, c, hlt'⟩) (t := e'.tree) rfl
    rw [Element.content, Element.content, Option.some.inj (hk.symm.trans hn),
      Option.some.inj (hk'.symm.trans hds)]
  · rw [Element.id, Element.id, hnode]

namespace Walker

variable {H : Type} {w after : Walker H} {s s' : Schedule} {selected : H} {scan scan' : ScanTree}
  {journal : Journal} {r : Option Runner}

def withContext (w : Walker H) (wanted : Bool) : Walker H :=
  { w with options := { w.options with siblingContext := wanted } }

theorem runnerNeeded_eq_some_iff {q : Runner} :
    w.runnerNeeded = .ok (some q) ↔ w.options.mode = .test ∧ w.runner = some q := by
  unfold runnerNeeded
  cases w.options.mode <;> cases w.runner <;> simp

variable [DecidableEq H]

theorem selected_walkUnder (h : w.walkUnder s selected = (.ok scan, after, journal)) :
    scan.selected = 0 := by
  unfold walkUnder at h
  split at h
  · cases h
  · simp only at h
    split at h
    · cases h
    · simp only [Prod.mk.injEq, Except.ok.injEq] at h
      rw [← h.1]

theorem results_of_none (hr : w.runnerNeeded = .ok none)
    (h : w.walkUnder s selected = (.ok scan, after, journal)) {i : Nat} (hi : i < scan.tree.size) :
    scan.results[i]? = some {} := by
  rw [results_eq_evaluate hr h]
  show (Array.replicate scan.tree.size ({} : ScanResults))[i]? = _
  rw [Array.getElem?_replicate, if_pos hi]

/-- An element that looks the same with and without the context has the same results, where the
registered rules are shallow. -/
theorem exists_results {wanted wanted' : Bool} {after' : Walker H} {journal' : Journal}
    {rs : List Registration} (hr : w.runnerNeeded = .ok r) (hs : s.Fair) (hs' : s'.Fair)
    (h : (w.withContext wanted).walkUnder s selected = (.ok scan, after, journal))
    (h' : (w.withContext wanted').walkUnder s' selected = (.ok scan', after', journal'))
    (hruns : ∀ q, w.runner = some q → q.Runs rs)
    (hrules : ∀ r ∈ rs.map Registration.rule, r.Shallow) {e e' : Element}
    (he : e.tree = scan.tree) (he' : e'.tree = scan'.tree) (hlike : e.Resembles e')
    (hid : e.id = e'.id) :
    ∃ x, scan.results[e.index]? = some x ∧ scan'.results[e'.index]? = some x := by
  cases r with
  | none =>
    have hblank := results_of_none (w := w.withContext wanted) hr h (he ▸ e.inside)
    have hblank' := results_of_none (w := w.withContext wanted') hr h' (he' ▸ e'.inside)
    exact ⟨{}, hblank, hblank'⟩
  | some q =>
    obtain ⟨htest, hq⟩ := runnerNeeded_eq_some_iff.mp hr
    have hq' := hruns q hq
    have hresults := evaluatedBy_walkUnder (w := w.withContext wanted) hq'.distinct hq'.reached
      htest hq hs h
    have hresults' := evaluatedBy_walkUnder (w := w.withContext wanted') hq'.distinct hq'.reached
      htest hq hs' h'
    refine ⟨(resultsOf (rs.map Registration.rule) e).1, hresults.getElem?_results he, ?_⟩
    rw [resultsOf_eq_of_resembles hrules hlike hid]
    exact hresults'.getElem?_results he'

/-- The sibling context only adds leaves next to the selected element, and takes nothing from the
results of the others than the parent. -/
theorem flankedIn_walkUnder (steady : w.platform.Steady) (hr : w.runnerNeeded = .ok r)
    (hs : s.Fair) (hs' : s'.Fair) (selected : H) :
    ∃ scan after journal scan' after' journal',
      (w.withContext false).walkUnder s selected = (.ok scan, after, journal) ∧
      (w.withContext true).walkUnder s' selected = (.ok scan', after', journal') ∧
      scan.tree.FlankedIn scan.selected scan'.tree ∧
      ((∀ q, w.runner = some q → q.Runs Builtin.registrations) →
        ∀ e ∈ scan.tree.elements, e.id ≠ -1 →
          ∃ x, scan.results[e.index]? = some x ∧ scan'.results[e.index]? = some x) := by
  obtain ⟨scan, after, journal, c, o, m, k, hw, hd⟩ :=
    exists_shape (w := w.withContext false) hr s selected
  obtain ⟨scan', after', journal', c', o', m', k', hw', hd'⟩ :=
    exists_shape (w := w.withContext true) hr s' selected
  obtain ⟨⟨b, hadd⟩, hshapes, -, ⟨order, ht, -⟩, -, -⟩ := hd
  obtain ⟨⟨b', hadd'⟩, hshapes', -, ⟨order', ht', -⟩, -, -⟩ := hd'
  obtain ⟨-, rfl⟩ := Prod.mk.inj (Except.ok.inj (hadd.symm.trans hadd'))
  obtain ⟨houtline, hhandles⟩ := hshapes.flankedIn hshapes'
  have hflanked : scan.tree.FlankedIn 0 scan'.tree := by
    rw [ht, ht']
    exact Outline.flankedIn_populate steady houtline hhandles hshapes.unread hshapes'.unread _ _ _ _
  have hclosed : scan.tree.Closed := by
    rw [ht]
    exact ((o.sameLinks_populate _ _ _).rootedAt hshapes.rooted).closed
  refine ⟨scan, after, journal, scan', after', journal', hw, hw', ?_, fun hruns e he hne => ?_⟩
  · rw [selected_walkUnder hw]
    exact hflanked
  · have he := ElementTree.mem_elements_iff.mp he
    rw [← he] at hflanked hclosed
    let e' : Element := ⟨scan'.tree, e.index, Nat.lt_of_lt_of_le e.inside hflanked.size_le⟩
    have hbeside : e.tree.FlankedIn 0 e'.tree := hflanked
    obtain ⟨hlike, hid⟩ := hbeside.resembles hclosed rfl hne
    have htree : e'.tree = scan'.tree := rfl
    obtain ⟨x, hx, hx'⟩ := exists_results hr hs hs' hw hw' hruns Builtin.shallow_registrations he
      htree hlike hid
    exact ⟨x, hx, hx'⟩

/-- A child of the element 1 is listed among its siblings, and the element itself is not. -/
def tangled : Walker Int where
  platform := Script.platform
    { children := [(0, [2, 1]), (1, [3])], next := [(2, some 3), (3, none)] }
  options := { mode := .test, parallel := false }
  counter := { bound := 9 }
  runner := some { provider := .ofRegistry (.of Builtin.registrations) }

theorem flankedIn_walkUnder_tangled :
    ∃ scan after journal scan' after' journal',
      (tangled.withContext false).walkUnder .inOrder 1 = (.ok scan, after, journal) ∧
      (tangled.withContext true).walkUnder .inOrder 1 = (.ok scan', after', journal') ∧
      scan.tree.size < scan'.tree.size ∧ scan.tree.FlankedIn scan.selected scan'.tree ∧
      ∀ e ∈ scan.tree.elements, e.id ≠ -1 →
        ∃ x, scan.results[e.index]? = some x ∧ scan'.results[e.index]? = some x := by
  have hfair : Schedule.inOrder.Fair := fun n => ⟨.refl _, .refl _⟩
  obtain ⟨scan, after, journal, scan', after', journal', hw, hw', hflanked, hresults⟩ :=
    flankedIn_walkUnder (w := tangled) (fun past past' h => rfl)
      (show tangled.runnerNeeded = .ok tangled.runner from rfl) hfair hfair 1
  have hsizes : ∃ scan after journal scan' after' journal',
      (tangled.withContext false).walkUnder .inOrder 1 = (.ok scan, after, journal) ∧
      (tangled.withContext true).walkUnder .inOrder 1 = (.ok scan', after', journal') ∧
      scan.tree.size = 3 ∧ scan'.tree.size = 5 := ⟨_, _, _, _, _, _, rfl, rfl, rfl, rfl⟩
  obtain ⟨scan₀, _, _, scan₁, _, _, hw₀, hw₁, hsize, hsize'⟩ := hsizes
  obtain rfl : scan₀ = scan := Except.ok.inj (congrArg Prod.fst (hw₀.symm.trans hw))
  obtain rfl : scan₁ = scan' := Except.ok.inj (congrArg Prod.fst (hw₁.symm.trans hw'))
  refine ⟨scan₀, after, journal, scan₁, after', journal', hw, hw', by omega, hflanked,
    hresults fun q hq => ?_⟩
  obtain rfl := Option.some.inj hq
  exact ⟨Builtin.ofList_registrations, .fresh⟩

end Walker

end UiConformance
