import UiConformance.Proofs.Descriptions
import UiConformance.Proofs.Growth

/-!
# Snapshots read back

A snapshot made from a description is the described tree: enumerated from its root by first children
and next siblings it has the shape of the description, each node reads as what its names stand for,
and the handles are the numbers in document order. The enumeration is the tree of handles
`handleTree 0 t`, each branch of which is that of a place in `t`.
-/

namespace UiConformance

open Rose

namespace SnapshotTree

/-! ## Branches -/

theorem handleForest_eq_append {ts : List (Rose Reading)} {n : Nat}
    {before past : List (Rose SnapshotHandle)} {u : Rose SnapshotHandle}
    (h : handleForest n ts = before ++ u :: past) :
    ∃ bs t rest, ts = bs ++ t :: rest ∧ u = handleTree (n + sizeForest bs) t := by
  induction ts generalizing n before with
  | nil =>
    rw [handleForest] at h
    cases List.append_eq_nil_iff.mp h.symm |>.2
  | cons t ts ih =>
    rw [handleForest] at h
    cases before with
    | nil =>
      obtain ⟨rfl, -⟩ := List.cons.inj h
      exact ⟨[], t, ts, rfl, rfl⟩
    | cons b before =>
      obtain ⟨-, hrest⟩ := List.cons.inj h
      obtain ⟨bs, t', rest, rfl, hu⟩ := ih hrest
      refine ⟨t :: bs, t', rest, rfl, ?_⟩
      rw [hu, sizeForest, Nat.add_assoc]

/-- Each branch of the tree of handles is that of a place. -/
theorem exists_place_of_plugAll {t : Rose Reading} (cs : List (Crumb SnapshotHandle))
    {u : Rose SnapshotHandle} (h : Crumb.plugAll cs u = handleTree 0 t) :
    ∃ q : Place Reading, q.whole = t ∧ u = handleTree q.number q.focus := by
  induction cs generalizing u with
  | nil => exact ⟨⟨t, []⟩, rfl, h⟩
  | cons c cs ih =>
    obtain ⟨⟨⟨r, ts⟩, ds⟩, hw, hplug⟩ := ih h
    rw [Crumb.plug, handleTree] at hplug
    obtain ⟨-, hforest⟩ := Rose.node.inj hplug
    obtain ⟨bs, t', rest, rfl, hu⟩ := handleForest_eq_append hforest.symm
    exact ⟨⟨t', ⟨r, bs, rest⟩ :: ds⟩, hw, hu⟩

theorem value_handleTree (n : Nat) (t : Rose Reading) : (handleTree n t).value = ⟨n⟩ := by
  cases t
  rfl

theorem children_handleTree (n : Nat) (t : Rose Reading) :
    (handleTree n t).children = handleForest (n + 1) t.children := by
  cases t
  rfl

/-- What comes below a branch is numbered right after it. -/
theorem preorder_below {t : Rose Reading} {p : Place SnapshotHandle}
    (h : p.whole = handleTree 0 t) : preorderForest p.focus.children =
      (List.range' (p.focus.value.number + 1) p.descendants).map SnapshotHandle.mk := by
  obtain ⟨q, -, hq⟩ := exists_place_of_plugAll p.above h
  rw [Place.descendants, hq, children_handleTree, preorderForest_handleForest, value_handleTree,
    sizeForest_handleForest]

/-- The children of a branch have its root as their parent. -/
theorem parent_of_mem_children {t : Rose Reading} {p : Place SnapshotHandle}
    (h : p.whole = handleTree 0 t) {v : Rose SnapshotHandle} (hv : v ∈ p.focus.children) :
    (ofRose t).platform.navigate .parent v.value = .ok (some p.focus.value) := by
  obtain ⟨⟨⟨r, ts⟩, cs⟩, rfl, hq⟩ := exists_place_of_plugAll p.above h
  rw [hq, children_handleTree] at hv
  obtain ⟨before, past, hsplit⟩ := List.append_of_mem hv
  obtain ⟨bs, t', rest, hts, rfl⟩ := handleForest_eq_append hsplit
  obtain rfl : ts = bs ++ t' :: rest := hts
  rw [hq, value_handleTree, value_handleTree]
  exact navigate_parent ⟨t', ⟨r, bs, rest⟩ :: cs⟩

/-! ## Readings -/

/-- A forest in the snapshot has the readings of the forest it was made from. -/
theorem alike_handleForest (r : Reading) : ∀ (before ts : List (Rose Reading))
    (cs : List (Crumb Reading)),
    AlikeForest (fun v h => ∀ past,
        (ofRose (Crumb.plugAll cs (.node r (before ++ ts)))).platform.read past h = .ok v)
      ts (handleForest (Crumb.offset cs + 1 + sizeForest before) ts)
  | before, [], cs => by
    rw [handleForest]
    exact .nil
  | before, .node s us :: ts, cs => by
    have hread := read_ofRose ⟨.node s us, ⟨r, before, ts⟩ :: cs⟩
    have hbelow := alike_handleForest s [] us (⟨r, before, ts⟩ :: cs)
    have hafter := alike_handleForest r (before ++ [.node s us]) ts cs
    rw [List.append_assoc, sizeForest_append, sizeForest, sizeForest, Nat.add_zero,
      ← Nat.add_assoc] at hafter
    rw [handleForest, handleTree]
    exact .cons (.node hread hbelow) hafter

theorem alike_handleTree (t : Rose Reading) :
    t.Alike (fun v h => ∀ past, (ofRose t).platform.read past h = .ok v) (handleTree 0 t) := by
  cases t with
  | node r ts => exact .node (read_ofRose ⟨.node r ts, []⟩) (alike_handleForest r [] ts [])

/-! ## Handles -/

theorem enumerates_root (t : Rose Reading) :
    (ofRose t).platform.Enumerates (some (ofRose t).root) [handleTree 0 t] := by
  cases t with
  | node r ts =>
    have hfirst := navigate_firstChild ⟨.node r ts, []⟩
    rw [handleTree]
    exact .node hfirst rfl (enumerates_ofRose r [] ts []) .done

theorem entry_of_ge {s : SnapshotTree} {h : SnapshotHandle} (hh : s.size ≤ h.number) :
    s.entry h = .error (.notAvailable h.text) := by
  rw [entry, Array.getElem?_eq_none hh]

theorem notAvailable_of_ge {s : SnapshotTree} {h : SnapshotHandle} (hh : s.size ≤ h.number) :
    (∀ n, s.platform.navigate n h = .error (.notAvailable h.text)) ∧
      ∀ past, s.platform.read past h = .error (.notAvailable h.text) := by
  have hentry := entry_of_ge hh
  refine ⟨fun n => ?_, fun past => ?_⟩
  · show s.navigate n h = _
    cases n <;> rw [navigate, hentry] <;> rfl
  · show (s.entry h).map _ = _
    rw [hentry]
    rfl

/-- The snapshot is the described tree, which is enumerated as `u`. -/
structure Renders (s : SnapshotTree) (d : Rose NodeDescription) (u : Rose SnapshotHandle) :
    Prop where
  enumerates : s.platform.Enumerates (some s.root) [u]
  unique : ∀ us, s.platform.Enumerates (some s.root) us → us = [u]
  described : d.Alike (fun n h => ∃ r, n.Describes r ∧ ∀ past, s.platform.read past h = .ok r) u
  preorder : u.preorder = (List.range s.size).map SnapshotHandle.mk
  below : ∀ p : Place SnapshotHandle, p.whole = u → preorderForest p.focus.children =
    (List.range' (p.focus.value.number + 1) p.descendants).map SnapshotHandle.mk
  parent : ∀ p : Place SnapshotHandle, p.whole = u → ∀ v ∈ p.focus.children,
    s.platform.navigate .parent v.value = .ok (some p.focus.value)
  parent_root : s.platform.navigate .parent s.root = .ok none
  nextSibling_root : s.platform.navigate .nextSibling s.root = .ok none
  notAvailable : ∀ h : SnapshotHandle, s.size ≤ h.number →
    (∀ n, s.platform.navigate n h = .error (.notAvailable h.text)) ∧
      ∀ past, s.platform.read past h = .error (.notAvailable h.text)

/-- A description whose names can all be read is accepted, and the snapshot is the described tree. -/
theorem exists_renders {d : Rose NodeDescription} (h : ∀ n ∈ d.preorder, n.Legible) :
    ∃ s u, ofDescription d = .ok s ∧ s.Renders d u := by
  obtain ⟨t, ht, hlike⟩ := exists_traverse d fun n hn => NodeDescription.exists_interpret (h n hn)
  refine ⟨ofRose t, handleTree 0 t, ?_, ?_⟩
  · rw [ofDescription_eq, ht]
    rfl
  · exact
      { enumerates := enumerates_root t
        unique := fun us hus => hus.unique (enumerates_root t)
        described := Alike.comp (fun _ r _ hd hread => ⟨r, hd, hread⟩) d hlike (alike_handleTree t)
        preorder := by rw [preorder_handleTree, size_ofRose, List.range_eq_range']
        below := fun p hp => preorder_below hp
        parent := fun p hp v hv => parent_of_mem_children hp hv
        parent_root := navigate_parent ⟨t, []⟩
        nextSibling_root := by cases t; rfl
        notAvailable := fun h hh => notAvailable_of_ge hh }

/-- A dialog whose second field gives its name twice. -/
def login : Rose NodeDescription :=
  .node { controlType := "Window" }
    [.node { controlType := "Group" }
        [.node { controlType := " edit ", patterns := ["Value", "10014"],
                 properties :=
                   ⟨[("30005", .text "User"), ("Name", .text "Login")], by decide⟩ } []],
      .node { controlType := "50000", patterns := ["invoke"] } []]

theorem exists_renders_login :
    (∀ n ∈ login.preorder, n.Legible) ∧ ∃ s u, ofDescription login = .ok s ∧ s.Renders login u := by
  have hlegible : ∀ n ∈ login.preorder, n.Legible := by
    intro n hn
    simp only [login, preorder, preorderForest, List.append_nil, List.cons_append, List.nil_append,
      List.mem_cons, List.not_mem_nil, or_false] at hn
    obtain rfl | rfl | rfl | rfl := hn
    · exact ⟨⟨⟨50032⟩, by decide +kernel⟩, by simp, by simp⟩
    · exact ⟨⟨⟨50026⟩, by decide +kernel⟩, by simp, by simp⟩
    · refine ⟨⟨⟨50004⟩, by decide +kernel⟩, ?_, ?_⟩
      · simp only [List.forall_mem_cons]
        exact ⟨⟨⟨10002⟩, by decide +kernel⟩, ⟨⟨10014⟩, by decide +kernel⟩, by simp⟩
      · simp only [List.forall_mem_cons]
        exact ⟨⟨⟨30005⟩, by decide +kernel⟩, ⟨⟨30005⟩, by decide +kernel⟩, by simp⟩
    · refine ⟨⟨⟨50000⟩, by decide +kernel⟩, ?_, by simp⟩
      simp only [List.forall_mem_cons]
      exact ⟨⟨⟨10000⟩, by decide +kernel⟩, by simp⟩
  exact ⟨hlegible, exists_renders hlegible⟩

end SnapshotTree

end UiConformance
