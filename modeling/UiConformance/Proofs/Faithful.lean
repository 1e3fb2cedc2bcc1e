import UiConformance.Proofs.SnapshotShape
import UiConformance.Proofs.WellFormed

/-!
# Faithful pictures

An element tree is a faithful picture of a place in a document when it shows the ancestors of the
place, the subtree below it in document order and, if wanted, its siblings, each with what the
document says of it. A complete outline becomes one once its elements are read.
-/

namespace UiConformance

open Rose SnapshotTree

/-! ## What an element shows -/

namespace ElementTree

def Carries (t : ElementTree) (i : Nat) (r : Reading) : Prop :=
  ∃ n, t.node? i = some n ∧ n.controlType = r.controlType ∧ n.patterns = r.patterns ∧
    n.properties = some r.properties

/-- The element with an identifier is what was read and has the children with the given identifiers,
in this order. -/
def Shows (t : ElementTree) (id : Int) (r : Reading) (children : List Int) : Prop :=
  ∃ i, t.find? id = some i ∧ t.Carries i r ∧ (t.childrenOf i).map t.id? = children.map some

mutual

/-- The element `id` shows the root of a tree, and the elements from `next` on show the other nodes
in document order. -/
def ShowsTree (t : ElementTree) (id next : Nat) : Rose Reading → Prop
  | .node r ts => t.Shows id r ((starts next ts).map Int.ofNat) ∧ t.ShowsForest next ts

def ShowsForest (t : ElementTree) (next : Nat) : List (Rose Reading) → Prop
  | [] => True
  | u :: us => t.ShowsTree next (next + 1) u ∧ t.ShowsForest (next + u.size) us

end

/-- The tree shows a place of a document with what is above, below and, if wanted, beside it. -/
structure Faithful (t : ElementTree) (p : Place Reading) (wanted : Bool) : Prop where
  size : t.size = 1 + p.above.length + p.descendants + (p.context wanted).length
  rooted : t.RootedAt p.above.length
  subtree : t.ShowsTree 0 1 p.focus
  /-- The parent has the selected element among its children, in its place. -/
  nearest : ∀ c cs, p.above = c :: cs →
    t.Shows (-1) c.value ((p.family wanted (p.descendants + 1)).map Int.ofNat)
  /-- Every further ancestor has the one before it as its only child. -/
  ancestor : ∀ (k : Nat) c, p.above[k]? = some c → 0 < k →
    t.Shows (-(k : Int) - 1) c.value [-(k : Int)]
  sibling : ∀ (j : Nat) u, (p.context wanted)[j]? = some u →
    t.Shows (p.descendants + 1 + j : Nat) u.value []

variable {t : ElementTree} {a : Nat}

theorem shows_of_carries (hn : t.Numbered a) (hc : t.Closed) {i : Nat} {r : Reading}
    (h : t.Carries i r) : t.Shows (idAt a i) r ((t.childrenOf i).map (idAt a)) := by
  have hi : i < t.size := by
    obtain ⟨n, hn, -⟩ := h
    exact lt_size_of_node? hn
  refine ⟨i, hn.find?_idAt hi, h, ?_⟩
  rw [List.map_map]
  exact List.map_congr_left fun c hm => hn c (hc i c hm)

/-! ## Identifiers of positions -/

theorem idAt_of_le {a n : Nat} (h : n ≤ a) : idAt a n = -(n : Int) := if_pos h

theorem idAt_add {a n : Nat} (h : 0 < n) : idAt a (a + n) = n := by
  rw [idAt, if_neg (by omega)]
  omega

theorem map_idAt_starts {α : Type} (ts : List (Rose α)) {n : Nat} (h : 0 < n) :
    (starts (a + n) ts).map (idAt a) = (starts n ts).map Int.ofNat := by
  induction ts generalizing n with
  | nil => rfl
  | cons t ts ih =>
    rw [starts, starts, List.map_cons, List.map_cons, idAt_add h, Nat.add_assoc, ih (by omega)]
    rfl

theorem map_idAt_range' {n : Nat} (h : 0 < n) (k : Nat) :
    (List.range' (a + n) k).map (idAt a) = (List.range' n k).map Int.ofNat := by
  induction k generalizing n with
  | zero => rfl
  | succ k ih =>
    rw [List.range'_succ, List.range'_succ, List.map_cons, List.map_cons, idAt_add h,
      Nat.add_assoc, ih (by omega)]
    rfl

theorem map_idAt_family (p : Place Reading) (wanted : Bool) {n : Nat} (h : 0 < n) :
    (p.family wanted (a + n)).map (idAt a) = (p.family wanted n).map Int.ofNat := by
  have hzero : idAt a 0 = Int.ofNat 0 := idAt_of_le (Nat.zero_le a)
  unfold Place.family
  split
  · rfl
  · split
    · rw [List.map_append, List.map_append, List.map_cons, List.map_cons, Nat.add_assoc,
        map_idAt_range' h, map_idAt_range' (by omega), hzero]
    · rw [List.map_singleton, List.map_singleton, hzero]

theorem showsTree_iff {id next : Nat} {u : Rose Reading} : t.ShowsTree id next u ↔
    t.Shows id u.value ((starts next u.children).map Int.ofNat) ∧
      t.ShowsForest next u.children := by
  cases u
  rw [ShowsTree]
  rfl

/-- Where a tree nests, and its elements are what was read there, it is shown. -/
theorem showsForest_of_nests (hn : t.Numbered a) (hc : t.Closed)
    {doc : Rose Reading} {s d : Nat} (carries : ∀ n, 0 < n → n ≤ d → ∀ q : Place Reading,
      q.whole = doc → q.number = s + n → t.Carries (a + n) q.focus.value) :
    ∀ (r : Reading) (before ts : List (Rose Reading)) (cs : List (Crumb Reading)) {n : Nat},
      Crumb.plugAll cs (.node r (before ++ ts)) = doc →
      Crumb.offset cs + 1 + sizeForest before = s + n → 0 < n → n + sizeForest ts ≤ d + 1 →
      NestsForest t.childrenOf (a + n) ts → t.ShowsForest n ts
  | r, before, [], cs, n, _, _, _, _, _ => by
    rw [ShowsForest]
    trivial
  | r, before, .node r' us :: ts, cs, n, hdoc, hoff, hpos, hle, h => by
    rw [NestsForest, Nests] at h
    obtain ⟨⟨hroot, hbelow⟩, hrest⟩ := h
    rw [sizeForest] at hle
    have hsize : (Rose.node r' us).size = 1 + sizeForest us := by rw [Rose.size]
    have hcarries := carries n hpos (by omega) ⟨.node r' us, ⟨r, before, ts⟩ :: cs⟩ hdoc hoff
    have hshows := shows_of_carries hn hc hcarries
    rw [idAt_add hpos, hroot, Nat.add_assoc, map_idAt_starts us (Nat.succ_pos n)] at hshows
    have hfirst := showsForest_of_nests hn hc carries r' [] us (⟨r, before, ts⟩ :: cs)
      (n := n + 1) hdoc
      (by rw [Crumb.offset, hoff, sizeForest]; omega) (Nat.succ_pos n) (by omega) hbelow
    have hnext := showsForest_of_nests hn hc carries r (before ++ [.node r' us]) ts cs
      (n := n + (Rose.node r' us).size)
      (by rw [List.append_assoc]; exact hdoc)
      (by rw [sizeForest_append, sizeForest, sizeForest]; omega) (by omega) (by omega)
      (by rw [← Nat.add_assoc]; exact hrest)
    rw [ShowsForest, ShowsTree]
    exact ⟨⟨hshows, hfirst⟩, hnext⟩

end ElementTree

/-! ## What a walk draws is shown -/

namespace Outline

variable {o : Outline SnapshotHandle} {p : Place Reading} {wanted : Bool}

theorem steady_ofRose (t : Rose Reading) : (ofRose t).platform.Steady := fun _ _ _ => rfl

/-- An element that stands for the handle of a place is what the snapshot says there. -/
theorem carries_populate (fresh : o.Unread) {i : Nat} {q : Place Reading}
    (hw : q.whole = p.whole) (hh : o.handles[i]? = some ⟨q.number⟩) (past : List SnapshotHandle)
    (order : Option (List Nat)) :
    (o.populate (ofRose p.whole).platform past order).tree.Carries i q.focus.value := by
  have hi : i < o.tree.size := by
    rw [← o.aligned]
    exact (Array.getElem?_eq_some_iff.mp hh).1
  obtain ⟨n, hn⟩ := ElementTree.exists_node? hi
  have hread : (ofRose p.whole).platform.read [] ⟨q.number⟩ = .ok q.focus.value := by
    rw [← hw]
    exact read_ofRose q []
  have hnode := node?_populate (steady_ofRose p.whole) fresh past order hn hh
  rw [Platform.settle_ok hread] at hnode
  exact ⟨_, hnode, rfl, rfl, rfl⟩

theorem length_contextHandles (p : Place Reading) (wanted : Bool) :
    (p.contextHandles wanted).length = (p.context wanted).length := by
  match p, wanted with
  | ⟨t, []⟩, true => rfl
  | ⟨t, []⟩, false => rfl
  | ⟨t, c :: cs⟩, false => rfl
  | ⟨t, c :: cs⟩, true =>
    show (handlesBefore c cs ++ handlesAfter t c cs).length = (c.before ++ c.after).length
    rw [List.length_append, List.length_append, length_handlesBefore, length_handlesAfter]

namespace Complete

theorem handle_selected (h : o.Complete p wanted) : o.handles[0]? = some ⟨p.number⟩ := by
  rw [← Array.getElem?_toList, h.handles]
  rfl

theorem handle_ancestor (h : o.Complete p wanted) {k n : Nat}
    (hk : (Crumb.offsets p.above)[k]? = some n) : o.handles[k + 1]? = some ⟨n⟩ := by
  have hlt := (List.getElem?_eq_some_iff.mp hk).1
  rw [← Array.getElem?_toList, h.handles, List.getElem?_append_left, List.getElem?_map,
    List.cons_append, List.getElem?_cons_succ, List.getElem?_append_left hlt, hk]
  · rfl
  · rw [List.length_map, List.cons_append, List.length_cons, List.length_append]
    omega

theorem handle_descendant (h : o.Complete p wanted) {n : Nat} (h1 : 0 < n)
    (h2 : n ≤ p.descendants) :
    o.handles[p.above.length + n]? = some ⟨p.number + n⟩ := by
  have hlen : (p.number :: Crumb.offsets p.above).length = p.above.length + 1 := by
    rw [List.length_cons, Crumb.length_offsets]
  rw [← Array.getElem?_toList, h.handles, List.getElem?_append_left, List.getElem?_map,
    List.getElem?_append_right (by omega), hlen, List.getElem?_range' (by omega)]
  · show some (SnapshotHandle.mk _) = _
    congr 2
    omega
  · rw [List.length_map, List.length_append, hlen, List.length_range']
    omega

theorem handle_sibling (h : o.Complete p wanted) (j : Nat) :
    o.handles[p.above.length + (p.descendants + 1 + j)]? = (p.contextHandles wanted)[j]? := by
  have hlen : ((p.number :: Crumb.offsets p.above ++
      List.range' (p.number + 1) p.descendants).map SnapshotHandle.mk).length =
        p.above.length + (p.descendants + 1) := by
    rw [List.length_map, List.length_append, List.length_cons, Crumb.length_offsets,
      List.length_range']
    omega
  rw [← Array.getElem?_toList, h.handles, List.getElem?_append_right (by omega), hlen]
  congr 1
  omega

/-- Everything in a complete outline stands for a place of the document. -/
theorem exists_place (h : o.Complete p wanted) {a : SnapshotHandle} (ha : a ∈ o.handles) :
    ∃ q : Place Reading, q.whole = p.whole ∧ a = ⟨q.number⟩ := by
  rw [← Array.mem_toList_iff, h.handles] at ha
  have hsize := p.number_add_size_le
  have hfocus : p.focus.size = 1 + p.descendants := by
    rw [← node_value_children p.focus, Rose.size]
    rfl
  have hin : a.number < p.whole.size := by
    rcases List.mem_append.mp ha with ha | ha
    · obtain ⟨n, hn, rfl⟩ := List.mem_map.mp ha
      rw [List.cons_append] at hn
      rcases List.mem_cons.mp hn with rfl | hn
      · show p.number < _
        omega
      rcases List.mem_append.mp hn with hn | hn
      · have : n < p.number := Crumb.lt_of_mem_offsets hn
        show n < _
        omega
      · have := (List.mem_range'_1.mp hn).2
        show n < _
        omega
    · obtain ⟨j, hj⟩ := List.getElem?_of_mem ha
      have hlt := (List.getElem?_eq_some_iff.mp hj).1
      rw [length_contextHandles] at hlt
      obtain ⟨q, hw, hq, -⟩ := p.exists_context wanted (List.getElem?_eq_getElem hlt)
      obtain rfl := Option.some.inj (hj.symm.trans hq)
      have := q.number_add_size_le
      have := q.focus.size_pos
      rw [← hw]
      show q.number < _
      omega
  obtain ⟨q, hw, hq⟩ := Place.exists_place p.whole hin
  exact ⟨q, hw, by rw [hq]⟩

/-- Once it is read, a complete outline is a faithful picture. -/
theorem faithful (h : o.Complete p wanted) (fresh : o.Unread)
    (hn : o.tree.Numbered p.above.length) (hr : o.tree.RootedAt p.above.length)
    (hs : o.size = 1 + p.above.length + p.descendants + (p.context wanted).length)
    (past : List SnapshotHandle) (order : Option (List Nat)) :
    (o.populate (ofRose p.whole).platform past order).tree.Faithful p wanted := by
  have hlinks := o.sameLinks_populate (ofRose p.whole).platform past order
  have hcarries : ∀ {i : Nat} {q : Place Reading}, q.whole = p.whole →
      o.handles[i]? = some ⟨q.number⟩ →
      (o.populate (ofRose p.whole).platform past order).tree.Carries i q.focus.value :=
    fun hw hh => carries_populate fresh hw hh past order
  generalize (o.populate (ofRose p.whole).platform past order).tree = t at hlinks hcarries
  have hn' := hlinks.numbered hn
  have hr' := hlinks.rootedAt hr
  have hshows : ∀ {i : Nat} {q : Place Reading}, q.whole = p.whole →
      o.handles[i]? = some ⟨q.number⟩ → t.Shows (ElementTree.idAt p.above.length i) q.focus.value
        ((o.tree.childrenOf i).map (ElementTree.idAt p.above.length)) := fun hw hh => by
    have := ElementTree.shows_of_carries hn' hr'.closed (hcarries hw hh)
    rwa [hlinks.childrenOf] at this
  refine ⟨hlinks.size.trans hs, hr', ?_, fun c cs hc => ?_, fun k c hk hpos => ?_,
    fun j u hj => ?_⟩
  · have hzero := hshows rfl h.handle_selected
    rw [ElementTree.idAt_of_le (Nat.zero_le _), h.selected,
      ElementTree.map_idAt_starts _ Nat.one_pos] at hzero
    have hbelow := h.nests
    rw [← show t.childrenOf = o.tree.childrenOf from funext hlinks.childrenOf] at hbelow
    have hread : ∀ n, 0 < n → n ≤ p.descendants → ∀ q : Place Reading, q.whole = p.whole →
        q.number = p.number + n → t.Carries (p.above.length + n) q.focus.value := by
      intro n h1 h2 q hw hq
      refine hcarries hw ?_
      rw [hq]
      exact h.handle_descendant h1 h2
    refine ElementTree.showsTree_iff.mpr ⟨hzero, ElementTree.showsForest_of_nests hn' hr'.closed
      hread p.focus.value [] p.focus.children p.above ?_ rfl Nat.one_pos ?_ hbelow⟩
    · rw [List.nil_append, node_value_children]
      rfl
    · exact Nat.le_of_eq (Nat.add_comm _ _)
  · have hpos : 0 < p.above.length := by rw [hc]; exact Nat.succ_pos _
    obtain ⟨q, hw, hq, hv⟩ := p.exists_ancestor (k := 0) (c := c) (by rw [hc]; rfl)
    have hone := hshows hw (h.handle_ancestor hq)
    rw [h.nearest hpos, hv, ElementTree.idAt_of_le hpos, Nat.add_assoc,
      ElementTree.map_idAt_family p wanted (by omega), Nat.add_comm 1] at hone
    exact hone
  · have hlt := (List.getElem?_eq_some_iff.mp hk).1
    obtain ⟨q, hw, hq, hv⟩ := p.exists_ancestor hk
    have hone := hshows hw (h.handle_ancestor hq)
    rw [h.ancestor k hlt hpos, hv, ElementTree.idAt_of_le hlt, List.map_singleton,
      ElementTree.idAt_of_le (Nat.le_of_lt hlt),
      show -((k + 1 : Nat) : Int) = -(k : Int) - 1 by omega] at hone
    exact hone
  · obtain ⟨q, hw, hq, rfl⟩ := p.exists_context wanted hj
    rw [← h.handle_sibling] at hq
    have hone := hshows hw hq
    rw [h.leaf _ (by omega), List.map_nil, ElementTree.idAt_add (by omega)] at hone
    exact hone

end Complete

end Outline

end UiConformance
