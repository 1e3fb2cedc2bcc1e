import UiConformance.Proofs.Shape
import UiConformance.Proofs.SnapshotPlatform

/-!
# The shape of a walk over a snapshot

What a walk admits of a snapshot under any budget, and the outline that it draws where the budget is
enough, in terms of the place that is selected.
-/

namespace UiConformance

open Rose SnapshotTree

/-- The siblings that a walk asks for. -/
def Place.context (p : Place Reading) (wanted : Bool) : List (Rose Reading) :=
  if wanted then p.siblings else []

namespace SnapshotTree

/-! ## Siblings -/

/-- The handles of the siblings before and after a place. -/
def handlesBefore (c : Crumb Reading) (cs : List (Crumb Reading)) : List SnapshotHandle :=
  (starts (Crumb.offset cs + 1) c.before).map SnapshotHandle.mk

def handlesAfter (t : Rose Reading) (c : Crumb Reading) (cs : List (Crumb Reading)) :
    List SnapshotHandle :=
  (starts (Crumb.offset (c :: cs) + t.size) c.after).map SnapshotHandle.mk

theorem length_handlesBefore (c : Crumb Reading) (cs : List (Crumb Reading)) :
    (handlesBefore c cs).length = c.before.length := by
  rw [handlesBefore, List.length_map, length_starts]

theorem length_handlesAfter (t : Rose Reading) (c : Crumb Reading) (cs : List (Crumb Reading)) :
    (handlesAfter t c cs).length = c.after.length := by
  rw [handlesAfter, List.length_map, length_starts]

theorem map_value_siblings (t : Rose Reading) (c : Crumb Reading) (cs : List (Crumb Reading)) :
    (handleForest (Crumb.offset cs + 1) (c.plug t).children).map value =
      handlesBefore c cs ++ ⟨Crumb.offset (c :: cs)⟩ :: handlesAfter t c cs := by
  rw [map_value_handleForest, Crumb.plug, children, starts_append, starts, List.map_append,
    List.map_cons]
  rfl

theorem not_mem_handlesBefore (c : Crumb Reading) (cs : List (Crumb Reading)) :
    (⟨Crumb.offset (c :: cs)⟩ : SnapshotHandle) ∉ handlesBefore c cs := by
  intro hm
  obtain ⟨n, hn, he⟩ := List.mem_map.mp hm
  obtain rfl := SnapshotHandle.mk.inj he
  have := (mem_starts hn).2
  rw [Crumb.offset] at this
  omega

theorem not_mem_handlesAfter (t : Rose Reading) (c : Crumb Reading) (cs : List (Crumb Reading)) :
    (⟨Crumb.offset (c :: cs)⟩ : SnapshotHandle) ∉ handlesAfter t c cs := by
  intro hm
  obtain ⟨n, hn, he⟩ := List.mem_map.mp hm
  obtain rfl := SnapshotHandle.mk.inj he
  have h1 := (mem_starts hn).1
  have h2 := t.size_pos
  omega

theorem sweeps_siblings {t : Rose Reading} {c : Crumb Reading} {cs : List (Crumb Reading)} {b : Nat}
    {slots : List (Option SnapshotHandle)} {k : Nat}
    (h : Sweeps (ofRose (Crumb.plugAll (c :: cs) t)).platform ⟨Crumb.offset (c :: cs)⟩ b false
      ((ofRose (Crumb.plugAll (c :: cs) t)).platform.reach? .firstChild ⟨Crumb.offset cs⟩)
      slots k) :
    (newcomers slots).length = min b (c.before.length + c.after.length) ∧
      (0 < k ↔ b < c.before.length + c.after.length) ∧
      (k = 0 →
        slots = (handlesBefore c cs).map some ++ none :: (handlesAfter t c cs).map some) := by
  have hb := not_mem_handlesBefore c cs
  have ha := not_mem_handlesAfter t c cs
  have hv := map_value_siblings t c cs
  have hu : (ofRose (Crumb.plugAll (c :: cs) t)).platform.Unfolds
      ((ofRose (Crumb.plugAll (c :: cs) t)).platform.reach? .firstChild ⟨Crumb.offset cs⟩)
      (handleForest (Crumb.offset cs + 1) (c.plug t).children) := unfolds_children ⟨c.plug t, cs⟩
  have hone : ((handleForest (Crumb.offset cs + 1) (c.plug t).children).map value).count
      ⟨Crumb.offset (c :: cs)⟩ + (if false then 1 else 0) ≤ 1 := by
    rw [hv, List.count_append, List.count_cons_self, List.count_eq_zero.mpr hb,
      List.count_eq_zero.mpr ha]
    decide
  have hlen : (newcomers ((handlesBefore c cs).map some ++ none ::
      (handlesAfter t c cs).map some)).length = c.before.length + c.after.length := by
    rw [newcomers_append, newcomers_none, newcomers_map_some, newcomers_map_some,
      List.length_append, length_handlesBefore, length_handlesAfter]
  obtain ⟨h1, h2, h3⟩ := h.eq_take hu hone
  rw [hv, map_slotOf_append hb ha] at h1 h2 h3
  rw [hlen] at h2
  refine ⟨?_, h2, h3⟩
  rw [h1, List.length_take, hlen]

end SnapshotTree

/-! ## What is admitted -/

theorem length_map_offsets (p : Place Reading) :
    ((Crumb.offsets p.above).map SnapshotHandle.mk).length = p.above.length := by
  rw [List.length_map, Crumb.length_offsets]

theorem above_eq_nil {p : Place Reading}
    (h : (Crumb.offsets p.above).map SnapshotHandle.mk = []) : p.above = [] := by
  refine List.length_eq_zero_iff.mp ?_
  rw [← length_map_offsets, h]
  rfl

namespace Shapes

variable {p : Place Reading} {wanted : Bool} {b m k : Nat} {o : Outline SnapshotHandle}

/-- Of the descendants and the siblings asked for, as many are admitted as the budget allows, and
a request is refused exactly where these are not all. -/
theorem admitted_eq (h : Shapes (ofRose p.whole).platform ⟨p.number⟩
      ((Crumb.offsets p.above).map SnapshotHandle.mk) wanted b o m k) :
    m = min (p.descendants + (p.context wanted).length) b ∧
      (0 < k ↔ b < p.descendants + (p.context wanted).length) := by
  have hu := unfolds_children p
  have hsize : sizeForest (handleForest (p.number + 1) p.focus.children) = p.descendants :=
    sizeForest_handleForest _ _
  cases h with
  | @alone as k hno hd =>
    have hnone : p.context wanted = [] := by
      rcases hno with rfl | e
      · rfl
      · unfold Place.context Place.siblings
        rw [above_eq_nil e]
        split <;> rfl
    obtain ⟨has, hk⟩ := hd.eq_take hu
    rw [hsize] at hk
    rw [hnone, List.length_nil, Nat.add_zero]
    refine ⟨?_, hk⟩
    rw [has, List.length_take, length_attachmentsForest, hsize, Nat.min_comm]
  | @among as k above rest slots l hyes hanc hd hs =>
    match p with
    | ⟨t, []⟩ => cases hanc
    | ⟨t, c :: cs⟩ =>
      obtain ⟨rfl, -⟩ := List.cons.inj hanc
      obtain ⟨has, hk⟩ := hd.eq_take hu
      obtain ⟨hlen, hl, -⟩ := sweeps_siblings hs
      have hcontext : (Place.context ⟨t, c :: cs⟩ wanted).length =
          c.before.length + c.after.length := by
        rw [hyes]
        exact List.length_append
      have haslen : as.length = min b (Place.descendants ⟨t, c :: cs⟩) := by
        rw [has, List.length_take, length_attachmentsForest, hsize]
      rw [hsize] at hk
      rw [hcontext]
      omega

end Shapes

/-! ## What is drawn -/

/-- The numbers of a parent's children, where the selected one has 0 and the others, if wanted,
follow each other from `n`. -/
def Place.family (p : Place Reading) (wanted : Bool) (n : Nat) : List Nat :=
  match p.above with
  | [] => []
  | c :: _ =>
    if wanted then
      List.range' n c.before.length ++ 0 :: List.range' (n + c.before.length) c.after.length
    else [0]

/-- The handles of the siblings that a walk asks for. -/
def Place.contextHandles (p : Place Reading) (wanted : Bool) : List SnapshotHandle :=
  match p.above with
  | [] => []
  | c :: cs => if wanted then handlesBefore c cs ++ handlesAfter p.focus c cs else []

/-- The outline of all that a walk asks for. -/
structure Outline.Complete (o : Outline SnapshotHandle) (p : Place Reading) (wanted : Bool) :
    Prop where
  handles : o.handles.toList =
    (p.number :: Crumb.offsets p.above ++ List.range' (p.number + 1) p.descendants).map
      SnapshotHandle.mk ++ p.contextHandles wanted
  selected : o.tree.childrenOf 0 = starts (p.above.length + 1) p.focus.children
  nests : NestsForest o.tree.childrenOf (p.above.length + 1) p.focus.children
  nearest : 0 < p.above.length →
    o.tree.childrenOf 1 = p.family wanted (p.above.length + 1 + p.descendants)
  ancestor : ∀ k < p.above.length, 0 < k → o.tree.childrenOf (k + 1) = [k]
  leaf : ∀ i, p.above.length + p.descendants < i → o.tree.childrenOf i = []

namespace Outline

/-- A place with what is above and below it. -/
def below (p : Place Reading) : Outline SnapshotHandle :=
  (spine ⟨p.number⟩ ((Crumb.offsets p.above).map SnapshotHandle.mk)).attachAll 1
    (attachmentsForest (p.above.length + 1) 0 (handleForest (p.number + 1) p.focus.children))

section

variable (p : Place Reading)

theorem isSpine_place :
    (spine (⟨p.number⟩ : SnapshotHandle) ((Crumb.offsets p.above).map SnapshotHandle.mk)).IsSpine
      ⟨p.number⟩ ((Crumb.offsets p.above).map SnapshotHandle.mk) :=
  isSpine_spine _ _

theorem size_spine_place :
    (spine (⟨p.number⟩ : SnapshotHandle) ((Crumb.offsets p.above).map SnapshotHandle.mk)).size =
      p.above.length + 1 := by
  rw [(isSpine_place p).size, length_map_offsets]

theorem size_below : (below p).size = p.above.length + 1 + p.descendants := by
  rw [below, size_attachAll, length_attachmentsForest, sizeForest_handleForest, size_spine_place]
  rfl

theorem handles_below : (below p).handles.toList =
    (p.number :: Crumb.offsets p.above ++ List.range' (p.number + 1) p.descendants).map
      SnapshotHandle.mk := by
  rw [below, handles_attachAll, (isSpine_place p).handles, map_snd_attachmentsForest,
    preorderForest_handleForest, List.map_append, List.map_cons]
  rfl

theorem childrenOf_below_selected :
    (below p).tree.childrenOf 0 = starts (p.above.length + 1) p.focus.children := by
  obtain ⟨hroot, -⟩ := nestsForest_attachAll (handleForest (p.number + 1) p.focus.children) 1
    (size_spine_place p) (Nat.succ_pos _)
  rw [below, hroot, (isSpine_place p).childrenOf (Nat.zero_le _), starts_handleForest]
  rfl

theorem nests_below :
    NestsForest (below p).tree.childrenOf (p.above.length + 1) p.focus.children := by
  obtain ⟨-, hnests⟩ := nestsForest_attachAll (handleForest (p.number + 1) p.focus.children) 1
    (size_spine_place p) (Nat.succ_pos _)
  exact nestsForest_handleForest _ _ hnests

theorem childrenOf_below_ancestor {k : Nat} (hk : k < p.above.length) :
    (below p).tree.childrenOf (k + 1) = [k] := by
  rw [below, childrenOf_attachAll_of_ne, (isSpine_place p).childrenOf]
  · rfl
  · rw [length_map_offsets]
    exact hk
  · rw [size_spine_place]
    omega
  · intro a ha
    rcases parent_mem_attachmentsForest _ _ _ a ha with e | e <;> omega

theorem childrenOf_below_leaf {i : Nat} (hi : p.above.length + p.descendants < i) :
    (below p).tree.childrenOf i = [] := by
  refine ElementTree.childrenOf_of_ge ?_
  rw [size_tree, size_below]
  omega

end

/-- Without siblings, what is above and below a place is all. -/
theorem complete_below {p : Place Reading} {wanted : Bool}
    (h : p.above = [] ∨ wanted = false) : (below p).Complete p wanted := by
  refine ⟨?_, childrenOf_below_selected p, nests_below p, fun hpos => ?_,
    fun k hk _ => childrenOf_below_ancestor p hk, fun i hi => childrenOf_below_leaf p hi⟩
  · have hnone : p.contextHandles wanted = [] := by
      unfold Place.contextHandles
      rcases h with e | e
      · rw [e]
      · rw [e]
        split <;> rfl
    rw [handles_below, hnone, List.append_nil]
  · rw [childrenOf_below_ancestor p hpos, Place.family]
    split
    · next e => rw [e] at hpos; cases hpos
    · next e =>
      rcases h with h | h
      · rw [h] at e; cases e
      · rw [h]; rfl

/-- The siblings follow, and the nearest ancestor takes them among its children. -/
theorem complete_adopt (t : Rose Reading) (c : Crumb Reading) (cs : List (Crumb Reading))
    (id : Int) :
    (((below ⟨t, c :: cs⟩).addAll id (handlesBefore c cs ++ handlesAfter t c cs)).adopt 1
      (Place.family ⟨t, c :: cs⟩ true
        ((c :: cs).length + 1 + Place.descendants ⟨t, c :: cs⟩)).toArray).Complete
          ⟨t, c :: cs⟩ true := by
  have hone : 1 < (below ⟨t, c :: cs⟩).size := by
    rw [size_below]
    simp only [List.length_cons]
    omega
  have hch := childrenOf_adopt_addAll hone id (handlesBefore c cs ++ handlesAfter t c cs)
    (Place.family ⟨t, c :: cs⟩ true ((c :: cs).length + 1 + Place.descendants ⟨t, c :: cs⟩))
  refine ⟨?_, ?_, ?_, fun _ => hch 1, fun k hk hpos => ?_, fun i hi => ?_⟩
  · show ((below ⟨t, c :: cs⟩).addAll _ _).handles.toList = _
    rw [handles_addAll, handles_below]
    rfl
  · exact (hch 0).trans (childrenOf_below_selected _)
  · refine NestsForest.congr _ (fun j h1 h2 => ?_) (nests_below ⟨t, c :: cs⟩)
    rw [hch, if_neg]
    simp only [List.length_cons] at h1
    omega
  · rw [hch, if_neg (by omega)]
    exact childrenOf_below_ancestor ⟨t, c :: cs⟩ hk
  · rw [hch, if_neg]
    · exact childrenOf_below_leaf ⟨t, c :: cs⟩ hi
    · simp only [List.length_cons] at hi
      omega

end Outline

namespace Shapes

variable {p : Place Reading} {wanted : Bool} {b m k : Nat} {o : Outline SnapshotHandle}

/-- Where the budget is enough, everything asked for is drawn. -/
theorem complete (h : Shapes (ofRose p.whole).platform ⟨p.number⟩
      ((Crumb.offsets p.above).map SnapshotHandle.mk) wanted b o m k)
    (hb : p.descendants + (p.context wanted).length ≤ b) : o.Complete p wanted := by
  have hsize : sizeForest (handleForest (p.number + 1) p.focus.children) = p.descendants :=
    sizeForest_handleForest _ _
  have hall : ∀ {as k}, Descends (ofRose p.whole).platform b
      (((Crumb.offsets p.above).map SnapshotHandle.mk).length + 1) 0
      ((ofRose p.whole).platform.reach? .firstChild ⟨p.number⟩) as k →
      as = attachmentsForest (p.above.length + 1) 0
        (handleForest (p.number + 1) p.focus.children) := fun hd => by
    rw [length_map_offsets] at hd
    rw [(hd.eq_take (unfolds_children p)).1, List.take_of_length_le]
    rw [length_attachmentsForest, hsize]
    omega
  cases h with
  | @alone as k hno hd =>
    obtain rfl := hall hd
    refine Outline.complete_below ?_
    rcases hno with e | e
    · exact .inr e
    · exact .inl (above_eq_nil e)
  | @among as k above rest slots l hyes hanc hd hs =>
    match p with
    | ⟨t, []⟩ => cases hanc
    | ⟨t, c :: cs⟩ =>
      obtain ⟨rfl, -⟩ := List.cons.inj hanc
      obtain rfl := hall hd
      rw [length_attachmentsForest, hsize] at hs ⊢
      rw [hyes] at hb ⊢
      have hcontext : (Place.context ⟨t, c :: cs⟩ true).length =
        c.before.length + c.after.length := List.length_append
      obtain ⟨-, hl, hslots⟩ := sweeps_siblings hs
      obtain rfl := hslots (by omega)
      have hfilled : filled ((handlesBefore c cs).map some ++ none ::
          (handlesAfter t c cs).map some) = (handlesBefore c cs).map some ++ none ::
            (handlesAfter t c cs).map some :=
        if_pos (List.mem_append_right _ List.mem_cons_self)
      rw [hfilled, newcomers_append, newcomers_none, newcomers_map_some, newcomers_map_some,
        positions_append, positions, positions_map_some, positions_map_some, newcomers_map_some,
        length_handlesBefore, length_handlesAfter, length_map_offsets]
      exact Outline.complete_adopt t c cs _

end Shapes

/-! ## Other places -/

/-- Each child of a place is a place in the same tree. -/
theorem Place.exists_child (r : Reading) (cs : List (Crumb Reading)) (ts : List (Rose Reading)) :
    ∀ (before : List (Rose Reading)) {j : Nat} {u : Rose Reading}, ts[j]? = some u →
      ∃ q : Place Reading, q.whole = Crumb.plugAll cs (.node r (before ++ ts)) ∧
        (starts (Crumb.offset cs + 1 + sizeForest before) ts)[j]? = some q.number ∧
        q.focus = u := by
  induction ts with
  | nil => intro before j u h; cases h
  | cons t ts ih =>
    intro before j u h
    cases j with
    | zero =>
      obtain rfl := Option.some.inj h
      exact ⟨⟨t, ⟨r, before, ts⟩ :: cs⟩, rfl, rfl, rfl⟩
    | succ j =>
      obtain ⟨q, hw, hn, hu⟩ := ih (before ++ [t]) h
      rw [List.append_assoc] at hw
      rw [sizeForest_append, sizeForest, sizeForest, Nat.add_zero, ← Nat.add_assoc] at hn
      exact ⟨q, hw, hn, hu⟩

/-- Each sibling of a place is a place in the same tree. -/
theorem Place.exists_context (p : Place Reading) (wanted : Bool) {j : Nat} {u : Rose Reading}
    (h : (p.context wanted)[j]? = some u) :
    ∃ q : Place Reading, q.whole = p.whole ∧
      (p.contextHandles wanted)[j]? = some ⟨q.number⟩ ∧ q.focus = u := by
  match p, wanted with
  | ⟨t, []⟩, true => cases h
  | ⟨t, []⟩, false => cases h
  | ⟨t, c :: cs⟩, false => cases h
  | ⟨t, c :: cs⟩, true =>
    change (c.before ++ c.after)[j]? = some u at h
    show ∃ q : Place Reading, q.whole = Crumb.plugAll cs (c.plug t) ∧
      (handlesBefore c cs ++ handlesAfter t c cs)[j]? = some ⟨q.number⟩ ∧ q.focus = u
    have hlen := length_handlesBefore c cs
    rcases Nat.lt_or_ge j c.before.length with hj | hj
    · rw [List.getElem?_append_left hj] at h
      rw [List.getElem?_append_left (by rw [hlen]; exact hj)]
      obtain ⟨q, hw, hn, hu⟩ := exists_child c.value cs (c.before ++ t :: c.after) []
        (j := j) (u := u) (by rw [List.getElem?_append_left hj, h])
      rw [starts_append, List.getElem?_append_left (by rw [length_starts]; exact hj)] at hn
      refine ⟨q, hw, ?_, hu⟩
      rw [handlesBefore, List.getElem?_map]
      exact congrArg (Option.map SnapshotHandle.mk) hn
    · rw [List.getElem?_append_right hj] at h
      rw [List.getElem?_append_right (by rw [hlen]; exact hj), hlen]
      obtain ⟨q, hw, hn, hu⟩ := exists_child c.value cs c.after (c.before ++ [t]) h
      rw [List.append_assoc] at hw
      rw [sizeForest_append, sizeForest, sizeForest, Nat.add_zero, ← Nat.add_assoc] at hn
      refine ⟨q, hw, ?_, hu⟩
      rw [handlesAfter, List.getElem?_map]
      exact congrArg (Option.map SnapshotHandle.mk) hn

end UiConformance
