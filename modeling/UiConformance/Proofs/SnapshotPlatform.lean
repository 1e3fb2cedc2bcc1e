import UiConformance.Proofs.Place
import UiConformance.Proofs.Unfolding
import UiConformance.Snapshot.Tree
import UiConformance.Walk.Ancestry

/-!
# Snapshots as platforms

The entries of a flattened tree are its places: the entry with the number of a place holds the
reading there, the number of the parent and the numbers of the children. So navigation moves from
place to place, the ancestry of a handle is what is above its place, and from a first child the
snapshot unfolds as the children in the tree.
-/

namespace UiConformance

open Rose

namespace SnapshotTree

/-! ## Entries -/

theorem siblingNumbers_eq_starts (n : Nat) (ts : List (Rose Reading)) :
    siblingNumbers n ts = starts n ts := by
  induction ts generalizing n with
  | nil => rfl
  | cons t ts ih => rw [siblingNumbers, ih, starts]

mutual

theorem map_reading_flatten (parent : Option Nat) (n : Nat) : (t : Rose Reading) →
    (flatten parent n t).map (·.reading) = t.preorder
  | .node r ts => by rw [flatten, List.map_cons, map_reading_flattenForest, preorder]

theorem map_reading_flattenForest (parent : Option Nat) (n : Nat) : (ts : List (Rose Reading)) →
    (flattenForest parent n ts).map (·.reading) = preorderForest ts
  | [] => rfl
  | t :: ts => by
    rw [flattenForest, List.map_append, map_reading_flatten, map_reading_flattenForest,
      preorderForest]

end

theorem length_flatten (parent : Option Nat) (n : Nat) (t : Rose Reading) :
    (flatten parent n t).length = t.size := by
  rw [← length_preorder, ← map_reading_flatten parent n t, List.length_map]

theorem length_flattenForest (parent : Option Nat) (n : Nat) (ts : List (Rose Reading)) :
    (flattenForest parent n ts).length = sizeForest ts := by
  rw [← length_preorderForest, ← map_reading_flattenForest parent n ts, List.length_map]

theorem flattenForest_append (parent : Option Nat) (n : Nat) (ts us : List (Rose Reading)) :
    flattenForest parent n (ts ++ us) =
      flattenForest parent n ts ++ flattenForest parent (n + sizeForest ts) us := by
  induction ts generalizing n with
  | nil => rfl
  | cons t ts ih =>
    rw [List.cons_append, flattenForest, ih, flattenForest, sizeForest, List.append_assoc,
      Nat.add_assoc]

/-- The entries of a branch stand together, from the number of the branch. -/
theorem exists_flatten_plugAll (cs : List (Crumb Reading)) (t : Rose Reading) :
    ∃ pre post, flatten none 0 (Crumb.plugAll cs t) =
        pre ++ flatten (Crumb.offsets cs).head? (Crumb.offset cs) t ++ post ∧
      pre.length = Crumb.offset cs := by
  induction cs generalizing t with
  | nil => exact ⟨[], [], (List.append_nil _).symm, rfl⟩
  | cons c cs ih =>
    obtain ⟨pre, post, he, hlen⟩ := ih (c.plug t)
    rw [Crumb.plug, flatten, flattenForest_append, flattenForest] at he
    refine ⟨pre ++ ⟨c.value, (Crumb.offsets cs).head?, siblingNumbers (Crumb.offset cs + 1)
        (c.before ++ t :: c.after)⟩ ::
          flattenForest (some (Crumb.offset cs)) (Crumb.offset cs + 1) c.before,
      flattenForest (some (Crumb.offset cs)) (Crumb.offset cs + 1 + sizeForest c.before + t.size)
        c.after ++ post, ?_, ?_⟩
    · change flatten none 0 (Crumb.plugAll cs (c.plug t)) = _ at he
      rw [Crumb.plugAll, he, Crumb.offsets, Crumb.offset]
      simp only [List.append_assoc, List.cons_append, List.head?_cons]
    · rw [List.length_append, List.length_cons, length_flattenForest, hlen, Crumb.offset]
      omega

theorem getElem?_entries (p : Place Reading) : (ofRose p.whole).entries[p.number]? =
    some ⟨p.focus.value, (Crumb.offsets p.above).head?,
      starts (p.number + 1) p.focus.children⟩ := by
  obtain ⟨pre, post, he, hlen⟩ := exists_flatten_plugAll p.above p.focus
  show (flatten none 0 (Crumb.plugAll p.above p.focus)).toArray[Crumb.offset p.above]? = _
  rw [List.getElem?_toArray, he, List.append_assoc, List.getElem?_append_right (by omega), hlen,
    Nat.sub_self]
  cases p.focus with
  | node r ts =>
    rw [flatten, siblingNumbers_eq_starts]
    rfl

theorem entry_ofRose (p : Place Reading) :
    (ofRose p.whole).entry ⟨p.number⟩ =
      .ok ⟨p.focus.value, (Crumb.offsets p.above).head?,
        starts (p.number + 1) p.focus.children⟩ := by
  rw [entry, getElem?_entries]

theorem size_ofRose (t : Rose Reading) : (ofRose t).size = t.size := by
  show (flatten none 0 t).toArray.size = _
  rw [List.size_toArray, length_flatten]

theorem read_eq_ok_iff {doc : Rose Reading} {h : SnapshotHandle} {r : Reading}
    (past : List SnapshotHandle) :
    (ofRose doc).platform.read past h = .ok r ↔ doc.preorder[h.number]? = some r := by
  have hget : doc.preorder[h.number]? = ((ofRose doc).entries[h.number]?).map (·.reading) := by
    rw [← map_reading_flatten none 0 doc, List.getElem?_map]
    exact congrArg (Option.map _) List.getElem?_toArray.symm
  show ((ofRose doc).entry h).map (·.reading) = _ ↔ _
  rw [hget, entry]
  cases (ofRose doc).entries[h.number]? with
  | none => simp [Except.map]
  | some e => simp [Except.map]

/-! ## Navigation -/

/-- What follows a number that does not occur before. -/
theorem successor?_append {n : Nat} {xs ys : List Nat} (h : n ∉ xs) :
    successor? n (xs ++ n :: ys) = ys.head? := by
  induction xs with
  | nil => exact if_pos rfl
  | cons x xs ih =>
    rw [List.cons_append, successor?, if_neg, ih]
    · exact fun hm => h (List.mem_cons_of_mem _ hm)
    · rintro rfl
      exact h List.mem_cons_self

/-- The next sibling of an entry follows it among the children of its parent. -/
theorem navigate_nextSibling_entry {s : SnapshotTree} {n m : Nat} {e f : SnapshotEntry}
    (he : s.entry ⟨n⟩ = .ok e) (hm : e.parent = some m) (hf : s.entry ⟨m⟩ = .ok f) :
    s.navigate .nextSibling ⟨n⟩ = .ok ((successor? n f.children).map SnapshotHandle.mk) := by
  unfold navigate
  simp only [he, bind, Except.bind, hm, hf]
  rfl

variable (p : Place Reading)

theorem navigate_parent : (ofRose p.whole).platform.navigate .parent ⟨p.number⟩ =
    .ok ((Crumb.offsets p.above).head?.map SnapshotHandle.mk) := by
  show ((ofRose p.whole).entry _).map _ = _
  rw [entry_ofRose]
  rfl

theorem navigate_firstChild : (ofRose p.whole).platform.navigate .firstChild ⟨p.number⟩ =
    .ok ((starts (p.number + 1) p.focus.children).head?.map SnapshotHandle.mk) := by
  show ((ofRose p.whole).entry _).map _ = _
  rw [entry_ofRose]
  rfl

theorem reach?_firstChild : (ofRose p.whole).platform.reach? .firstChild ⟨p.number⟩ =
    (starts (p.number + 1) p.focus.children).head?.map SnapshotHandle.mk :=
  Platform.reach?_of_ok (navigate_firstChild p)

theorem read_ofRose (past : List SnapshotHandle) :
    (ofRose p.whole).platform.read past ⟨p.number⟩ = .ok p.focus.value := by
  show ((ofRose p.whole).entry _).map _ = _
  rw [entry_ofRose]
  rfl

theorem navigate_nextSibling (t : Rose Reading) (c : Crumb Reading) (cs : List (Crumb Reading)) :
    (ofRose (Crumb.plugAll (c :: cs) t)).platform.navigate .nextSibling
        ⟨Crumb.offset (c :: cs)⟩ =
      .ok ((starts (Crumb.offset (c :: cs) + t.size) c.after).head?.map SnapshotHandle.mk) := by
  have hstarts : starts (Crumb.offset cs + 1) (c.before ++ t :: c.after) =
      starts (Crumb.offset cs + 1) c.before ++ Crumb.offset (c :: cs) ::
        starts (Crumb.offset (c :: cs) + t.size) c.after := by
    rw [starts_append, starts]
    rfl
  have hnew : Crumb.offset (c :: cs) ∉ starts (Crumb.offset cs + 1) c.before := fun hm => by
    have := (mem_starts hm).2
    rw [Crumb.offset] at this
    omega
  have h : (ofRose (Crumb.plugAll (c :: cs) t)).platform.navigate .nextSibling
      ⟨Crumb.offset (c :: cs)⟩ = _ :=
    navigate_nextSibling_entry (entry_ofRose ⟨t, c :: cs⟩) rfl (entry_ofRose ⟨c.plug t, cs⟩)
  rw [h]
  show Except.ok ((successor? _ (starts (Crumb.offset cs + 1) (c.before ++ t :: c.after))).map _) = _
  rw [hstarts, successor?_append hnew]

/-! ## Ancestry -/

section

variable {H : Type} [DecidableEq H] {P : Platform H} {selected current : H} {found : List H}

theorem climb_of_none (h : P.navigate .parent current = .ok none) (steps : Nat) :
    climb P selected steps found current = (found, #[]) := by
  cases steps with
  | zero => rfl
  | succ steps => unfold climb; rw [h]

theorem climb_of_some {above : H} (h : P.navigate .parent current = .ok (some above))
    (hs : above ≠ selected) (hf : above ∉ found) (steps : Nat) :
    climb P selected (steps + 1) found current =
      climb P selected steps (found ++ [above]) above := by
  rw [climb, h]
  exact if_neg (not_or.mpr ⟨hs, hf⟩)

end

/-- Numbers fall on the way up, so no handle occurs a second time. -/
theorem climb_ofRose (t : Rose Reading) (selected : SnapshotHandle) (cs : List (Crumb Reading)) :
    ∀ {steps : Nat} {found : List SnapshotHandle}, cs.length ≤ steps →
      (∀ h ∈ selected :: found, Crumb.offset cs ≤ h.number) →
      (climb (ofRose (Crumb.plugAll cs t)).platform selected steps found ⟨Crumb.offset cs⟩).1 =
        found ++ (Crumb.offsets cs).map SnapshotHandle.mk := by
  induction cs generalizing t with
  | nil =>
    intro steps found _ _
    have hn : (ofRose (Crumb.plugAll [] t)).platform.navigate .parent
        ⟨Crumb.offset ([] : List (Crumb Reading))⟩ = .ok none := navigate_parent ⟨t, []⟩
    rw [climb_of_none hn, Crumb.offsets, List.map_nil, List.append_nil]
  | cons c cs ih =>
    intro steps found hsteps hless
    obtain ⟨steps, rfl⟩ : ∃ n, steps = n + 1 :=
      ⟨steps - 1, by rw [List.length_cons] at hsteps; omega⟩
    have hlen : cs.length ≤ steps := Nat.le_of_succ_le_succ hsteps
    have hlt : Crumb.offset cs < Crumb.offset (c :: cs) :=
      Crumb.lt_of_mem_offsets List.mem_cons_self
    have hn : (ofRose (Crumb.plugAll (c :: cs) t)).platform.navigate .parent
        ⟨Crumb.offset (c :: cs)⟩ = .ok (some ⟨Crumb.offset cs⟩) := navigate_parent ⟨t, c :: cs⟩
    have hnew : ∀ h ∈ selected :: found, (⟨Crumb.offset cs⟩ : SnapshotHandle) ≠ h := by
      rintro h hm rfl
      exact absurd (hless _ hm) (Nat.not_le.mpr hlt)
    rw [climb_of_some hn (hnew selected List.mem_cons_self)
      fun hm => hnew _ (List.mem_cons_of_mem _ hm) rfl]
    rw [Crumb.offsets, List.map_cons,
      List.append_cons found _ ((Crumb.offsets cs).map SnapshotHandle.mk)]
    refine ih (c.plug t) hlen fun h hm => ?_
    rw [← List.cons_append] at hm
    rcases List.mem_append.mp hm with hm | hm
    · exact Nat.le_of_lt (Nat.lt_of_lt_of_le hlt (hless h hm))
    · obtain rfl := List.mem_singleton.mp hm
      exact Nat.le_refl _

theorem ancestry_ofRose (p : Place Reading) :
    (ancestry (ofRose p.whole).platform ⟨p.number⟩).1 =
      (Crumb.offsets p.above).map SnapshotHandle.mk := by
  refine climb_ofRose p.focus ⟨p.number⟩ p.above ?_ fun h hm => ?_
  · show p.above.length ≤ (ofRose p.whole).size + 1
    have h1 := Crumb.length_le_offset p.above
    have h2 := Crumb.offset_add_size_le p.above p.focus
    rw [size_ofRose, Place.whole]
    omega
  · obtain rfl := List.mem_singleton.mp hm
    exact Nat.le_refl _

/-! ## Unfolding -/

mutual

/-- A tree of the handles of a branch, from the number of its root. -/
def handleTree (n : Nat) : Rose Reading → Rose SnapshotHandle
  | .node _ ts => .node ⟨n⟩ (handleForest (n + 1) ts)

def handleForest (n : Nat) : List (Rose Reading) → List (Rose SnapshotHandle)
  | [] => []
  | t :: ts => handleTree n t :: handleForest (n + t.size) ts

end

mutual

theorem size_handleTree (n : Nat) : (t : Rose Reading) → (handleTree n t).size = t.size
  | .node r ts => by rw [handleTree, Rose.size, sizeForest_handleForest, Rose.size]

theorem sizeForest_handleForest (n : Nat) : (ts : List (Rose Reading)) →
    sizeForest (handleForest n ts) = sizeForest ts
  | [] => rfl
  | t :: ts => by
    rw [handleForest, sizeForest, size_handleTree, sizeForest_handleForest, sizeForest]

end

theorem starts_handleForest (m n : Nat) (ts : List (Rose Reading)) :
    starts m (handleForest n ts) = starts m ts := by
  induction ts generalizing m n with
  | nil => rfl
  | cons t ts ih => rw [handleForest, starts, size_handleTree, ih, starts]

theorem map_value_handleForest (n : Nat) (ts : List (Rose Reading)) :
    (handleForest n ts).map value = (starts n ts).map SnapshotHandle.mk := by
  induction ts generalizing n with
  | nil => rfl
  | cons t ts ih =>
    rw [handleForest, List.map_cons, ih, starts, List.map_cons]
    cases t
    rfl

mutual

/-- Document order is the order of the numbers. -/
theorem preorder_handleTree (n : Nat) : (t : Rose Reading) →
    (handleTree n t).preorder = (List.range' n t.size).map SnapshotHandle.mk
  | .node r ts => by
    rw [handleTree, preorder, preorderForest_handleForest, Rose.size, Nat.add_comm 1,
      List.range'_succ, List.map_cons]

theorem preorderForest_handleForest (n : Nat) : (ts : List (Rose Reading)) →
    preorderForest (handleForest n ts) = (List.range' n (sizeForest ts)).map SnapshotHandle.mk
  | [] => rfl
  | t :: ts => by
    rw [handleForest, preorderForest, preorder_handleTree, preorderForest_handleForest,
      sizeForest, ← List.map_append, ← List.range'_append_1]

end

mutual

theorem nests_handleTree {f : Nat → List Nat} (m : Nat) : (t : Rose Reading) → ∀ {i n : Nat},
    Nests f i n (handleTree m t) → Nests f i n t
  | .node r ts, i, n, h => by
    rw [handleTree, Nests, starts_handleForest] at h
    rw [Nests]
    exact ⟨h.1, nestsForest_handleForest (m + 1) ts h.2⟩

theorem nestsForest_handleForest {f : Nat → List Nat} (m : Nat) : (ts : List (Rose Reading)) →
    ∀ {n : Nat}, NestsForest f n (handleForest m ts) → NestsForest f n ts
  | [], n, _ => by rw [NestsForest]; trivial
  | t :: ts, n, h => by
    rw [handleForest, NestsForest, size_handleTree] at h
    rw [NestsForest]
    exact ⟨nests_handleTree m t h.1, nestsForest_handleForest (m + t.size) ts h.2⟩

end

/-- From the first child of a place, or from the sibling after some, the snapshot enumerates the
trees there. -/
theorem enumerates_ofRose (r : Reading) : ∀ (before ts : List (Rose Reading))
    (cs : List (Crumb Reading)),
    (ofRose (Crumb.plugAll cs (.node r (before ++ ts)))).platform.Enumerates
      ((starts (Crumb.offset cs + 1 + sizeForest before) ts).head?.map SnapshotHandle.mk)
      (handleForest (Crumb.offset cs + 1 + sizeForest before) ts)
  | before, [], cs => by
    rw [starts, handleForest]
    exact .done
  | before, .node s us :: ts, cs => by
    have hfirst := enumerates_ofRose s [] us (⟨r, before, ts⟩ :: cs)
    have hnext := enumerates_ofRose r (before ++ [.node s us]) ts cs
    have hdown := navigate_firstChild ⟨.node s us, ⟨r, before, ts⟩ :: cs⟩
    have hright := navigate_nextSibling (.node s us) ⟨r, before, ts⟩ cs
    rw [List.append_assoc, sizeForest_append, sizeForest, sizeForest, Nat.add_zero,
      ← Nat.add_assoc] at hnext
    rw [starts, handleForest, handleTree]
    exact .node hdown hright hfirst hnext

theorem unfolds_children (p : Place Reading) :
    (ofRose p.whole).platform.Unfolds
      ((ofRose p.whole).platform.reach? .firstChild ⟨p.number⟩)
      (handleForest (p.number + 1) p.focus.children) := by
  rw [reach?_firstChild]
  match p with
  | ⟨.node r ts, cs⟩ => exact (enumerates_ofRose r [] ts cs).unfolds

end SnapshotTree

end UiConformance
