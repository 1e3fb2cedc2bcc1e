import UiConformance.Proofs.Links
import UiConformance.Walk.Draft

/-!
# Growing outlines

The shape of a walk is a list of attachments: each element that the descent admits is added with
the next identifier and linked below one that was there before. `o.attachAll id as` is the outline
after the attachments `as`, and `o.addAll id hs` after the elements `hs` were added unlinked.

`Numbered` and `RootedAt` are kept by every attachment, hence by all of them.
-/

namespace UiConformance

/-! ## Identifiers -/

namespace ElementTree

/-- The identifier at a position, where so many ancestors come right after the first element. -/
def idAt (ancestors i : Nat) : Int := if i ≤ ancestors then -(i : Int) else i - ancestors

theorem idAt_inj {a i j : Nat} (h : idAt a i = idAt a j) : i = j := by
  unfold idAt at h
  split at h <;> split at h <;> omega

/-- Every element has the identifier of its position. -/
def Numbered (t : ElementTree) (ancestors : Nat) : Prop :=
  ∀ i < t.size, t.id? i = some (idAt ancestors i)

variable {t : ElementTree} {a : Nat}

theorem find?_eq_some_iff (t : ElementTree) (id : Int) (i : Nat) :
    t.find? id = some i ↔ t.id? i = some id ∧ ∀ j < i, t.id? j ≠ some id := by
  unfold find? id? node?
  rw [Array.findIdx?_eq_some_iff_getElem]
  constructor
  · rintro ⟨hi, h1, h2⟩
    refine ⟨by simpa [hi] using h1, fun j hj => ?_⟩
    have hj' : j < t.nodes.size := by omega
    simpa [hj'] using h2 j hj
  · rintro ⟨h1, h2⟩
    obtain ⟨n, hn, rfl⟩ := Option.map_eq_some_iff.mp h1
    obtain ⟨hi, rfl⟩ := Array.getElem?_eq_some_iff.mp hn
    refine ⟨hi, by simp, fun j hj => ?_⟩
    have hj' : j < t.nodes.size := by omega
    simpa [hj'] using h2 j hj

theorem Numbered.id?_eq_some_iff (h : t.Numbered a) {id : Int} {i : Nat} :
    t.id? i = some id ↔ i < t.size ∧ idAt a i = id := by
  constructor
  · intro hi
    obtain ⟨n, hn, -⟩ := Option.map_eq_some_iff.mp hi
    have hlt := lt_size_of_node? hn
    exact ⟨hlt, Option.some.inj ((h i hlt).symm.trans hi)⟩
  · rintro ⟨hlt, rfl⟩
    exact h i hlt

theorem Numbered.find?_eq_some_iff (h : t.Numbered a) {id : Int} {i : Nat} :
    t.find? id = some i ↔ t.id? i = some id := by
  rw [ElementTree.find?_eq_some_iff]
  refine and_iff_left_of_imp fun hi j hj hj' => ?_
  have hij := (h.id?_eq_some_iff.mp hi).2.trans (h.id?_eq_some_iff.mp hj').2.symm
  exact Nat.ne_of_gt hj (idAt_inj hij)

theorem Numbered.find?_idAt (h : t.Numbered a) {i : Nat} (hi : i < t.size) :
    t.find? (idAt a i) = some i :=
  h.find?_eq_some_iff.mpr (h i hi)

/-- The identifiers are the numbers from the topmost ancestor's to the last element's. -/
theorem Numbered.exists_id?_iff (h : t.Numbered a) {m : Nat} (hs : t.size = 1 + a + m) {id : Int} :
    (∃ i, t.id? i = some id) ↔ -(a : Int) ≤ id ∧ id ≤ m := by
  constructor
  · rintro ⟨i, hi⟩
    obtain ⟨hlt, rfl⟩ := h.id?_eq_some_iff.mp hi
    unfold idAt
    split <;> omega
  · rintro ⟨h1, h2⟩
    refine ⟨if id ≤ 0 then id.natAbs else a + id.toNat, ?_⟩
    rw [h _ (by split <;> omega)]
    unfold idAt
    congr 1
    split <;> split <;> omega

end ElementTree

/-! ## Attachments -/

namespace Outline

variable {H : Type}

/-- Adds an element below another. -/
def attach (o : Outline H) (parent : Nat) (h : H) (id : Int) : Outline H :=
  (o.add h id).link parent o.size

/-- Adds elements with ascending identifiers, each below the position it is paired with. -/
def attachAll (o : Outline H) (id : Int) : List (Nat × H) → Outline H
  | [] => o
  | (parent, h) :: as => (o.attach parent h id).attachAll (id + 1) as

/-- Adds detached elements with ascending identifiers. -/
def addAll (o : Outline H) (id : Int) : List H → Outline H
  | [] => o
  | h :: hs => (o.add h id).addAll (id + 1) hs

variable {o : Outline H} {id : Int}

theorem size_tree (o : Outline H) : o.tree.size = o.size := rfl

@[simp] theorem size_add (o : Outline H) (h : H) (id : Int) : (o.add h id).size = o.size + 1 := by
  simp [add, size]

@[simp] theorem size_attach (o : Outline H) (p : Nat) (h : H) (id : Int) :
    (o.attach p h id).size = o.size + 1 := by
  simp [attach, link, add, size]

@[simp] theorem size_adopt (o : Outline H) (p : Nat) (cs : Array Nat) :
    (o.adopt p cs).size = o.size := ElementTree.size_adopt o.tree p cs

theorem attachAll_append (o : Outline H) (id : Int) (as bs : List (Nat × H)) :
    o.attachAll id (as ++ bs) = (o.attachAll id as).attachAll (id + as.length) bs := by
  induction as generalizing o id with
  | nil => simp [attachAll]
  | cons a as ih =>
    rw [List.cons_append, attachAll, ih, attachAll, List.length_cons]
    congr 1
    omega

theorem size_attachAll (o : Outline H) (id : Int) (as : List (Nat × H)) :
    (o.attachAll id as).size = o.size + as.length := by
  induction as generalizing o id with
  | nil => rfl
  | cons a as ih => rw [attachAll, ih, size_attach, List.length_cons]; omega

theorem handles_attachAll (o : Outline H) (id : Int) (as : List (Nat × H)) :
    (o.attachAll id as).handles.toList = o.handles.toList ++ as.map (·.2) := by
  induction as generalizing o id with
  | nil => simp [attachAll]
  | cons a as ih => rw [attachAll, ih]; simp [attach, link, add]

theorem addAll_append (o : Outline H) (id : Int) (hs ks : List H) :
    o.addAll id (hs ++ ks) = (o.addAll id hs).addAll (id + hs.length) ks := by
  induction hs generalizing o id with
  | nil => simp [addAll]
  | cons h hs ih =>
    rw [List.cons_append, addAll, ih, addAll, List.length_cons]
    congr 1
    omega

theorem size_addAll (o : Outline H) (id : Int) (hs : List H) :
    (o.addAll id hs).size = o.size + hs.length := by
  induction hs generalizing o id with
  | nil => rfl
  | cons h hs ih => rw [addAll, ih, size_add, List.length_cons]; omega

theorem handles_addAll (o : Outline H) (id : Int) (hs : List H) :
    (o.addAll id hs).handles.toList = o.handles.toList ++ hs := by
  induction hs generalizing o id with
  | nil => simp [addAll]
  | cons h hs ih => rw [addAll, ih]; simp [add]

theorem node?_attach (o : Outline H) (p : Nat) (h : H) (id : Int) (i : Nat) :
    (o.attach p h id).tree.node? i = (if i = o.size then some { id } else o.tree.node? i).map
      fun n => { n with
        parent := if i = o.size then some p else n.parent
        children := if i = p then n.children.push o.size else n.children } := by
  show ((o.tree.push { id }).link p o.size).node? i = _
  rw [ElementTree.node?_link, ElementTree.node?_push]
  rfl

/-- An attachment changes no other element than the one it is below. -/
theorem node?_attach_of_ne {p i : Nat} (h : H) (hi : i < o.size) (hp : i ≠ p) :
    (o.attach p h id).tree.node? i = o.tree.node? i := by
  rw [node?_attach, if_neg (by omega)]
  cases o.tree.node? i with
  | none => rfl
  | some n => simp [hp, show i ≠ o.size by omega]

theorem node?_attachAll_of_ne {as : List (Nat × H)} {i : Nat} (hi : i < o.size)
    (hp : ∀ a ∈ as, i ≠ a.1) : (o.attachAll id as).tree.node? i = o.tree.node? i := by
  induction as generalizing o id with
  | nil => rfl
  | cons a as ih =>
    rw [attachAll, ih (by rw [size_attach]; omega) fun b hb => hp b (List.mem_cons_of_mem _ hb)]
    exact node?_attach_of_ne _ hi (hp a List.mem_cons_self)

theorem parent?_attachAll {as : List (Nat × H)} {i : Nat} (hi : i < o.size) :
    (o.attachAll id as).tree.parent? i = o.tree.parent? i := by
  induction as generalizing o id with
  | nil => rfl
  | cons a as ih =>
    rw [attachAll, ih (by rw [size_attach]; omega)]
    show ((o.tree.push { id }).link a.1 o.tree.size).parent? i = _
    rw [ElementTree.parent?_link (by simp), ElementTree.parent?_push, if_neg]
    exact Nat.ne_of_lt hi

theorem handles_attachAll_of_lt {as : List (Nat × H)} {i : Nat} (hi : i < o.size) :
    (o.attachAll id as).handles[i]? = o.handles[i]? := by
  have hlen : i < o.handles.toList.length := by
    rw [Array.length_toList, o.aligned]; exact hi
  rw [← Array.getElem?_toList, handles_attachAll, List.getElem?_append_left hlen,
    Array.getElem?_toList]

/-- Detached elements follow those that were there. -/
theorem node?_addAll (o : Outline H) (id : Int) (hs : List H) (i : Nat) :
    (o.addAll id hs).tree.node? i =
      if o.size ≤ i ∧ i < o.size + hs.length then some { id := id + (i - o.size : Nat) }
      else o.tree.node? i := by
  induction hs generalizing o id with
  | nil => rw [if_neg (by simp)]; rfl
  | cons h hs ih =>
    rw [addAll, ih, size_add, List.length_cons]
    show (if _ then _ else (o.tree.push { id }).node? i) = _
    rw [ElementTree.node?_push]
    have hsz : o.tree.size = o.size := rfl
    by_cases h1 : i = o.size
    · rw [if_neg (by omega), if_pos (by omega), if_pos (by omega), h1]
      simp
    · by_cases h2 : o.size + 1 ≤ i ∧ i < o.size + 1 + hs.length
      · rw [if_pos h2, if_pos (by omega)]
        simp only [Option.some.injEq, ElementNode.mk.injEq, and_true]
        omega
      · rw [if_neg h2, if_neg (by omega), if_neg (by omega)]

@[simp] theorem parent?_addAll (o : Outline H) (id : Int) (hs : List H) (i : Nat) :
    (o.addAll id hs).tree.parent? i = o.tree.parent? i := by
  unfold ElementTree.parent?
  rw [node?_addAll]
  split
  · next h => rw [ElementTree.node?_eq_none h.1]; rfl
  · rfl

@[simp] theorem childrenOf_addAll (o : Outline H) (id : Int) (hs : List H) (i : Nat) :
    (o.addAll id hs).tree.childrenOf i = o.tree.childrenOf i := by
  unfold ElementTree.childrenOf
  rw [node?_addAll]
  split
  · next h => rw [ElementTree.node?_eq_none h.1]; rfl
  · rfl

/-- Once an element adopts them, detached elements are among its children. -/
theorem childrenOf_adopt_addAll {o : Outline H} {q : Nat} (hq : q < o.size) (id : Int)
    (hs : List H) (cs : List Nat) (i : Nat) :
    ((o.addAll id hs).adopt q cs.toArray).tree.childrenOf i =
      if i = q then cs else o.tree.childrenOf i := by
  have hq' : q < (o.addAll id hs).tree.size := by
    rw [size_tree, size_addAll]
    omega
  exact (ElementTree.childrenOf_adopt hq').trans (by rw [childrenOf_addAll])

/-! ## What attachments keep -/

/-- Each attachment is below an element that is there by then. -/
def Fits : Nat → List (Nat × H) → Prop
  | _, [] => True
  | n, a :: as => a.1 < n ∧ Fits (n + 1) as

theorem fits_append {n : Nat} {as bs : List (Nat × H)} :
    Fits n (as ++ bs) ↔ Fits n as ∧ Fits (n + as.length) bs := by
  induction as generalizing n with
  | nil => simp [Fits]
  | cons a as ih =>
    rw [List.cons_append, Fits, ih, Fits, List.length_cons, and_assoc, Nat.add_right_comm n,
      Nat.add_assoc n]

theorem rootedAt_attachAll {top : Nat} {as : List (Nat × H)} (h : o.tree.RootedAt top)
    (hf : Fits o.size as) : (o.attachAll id as).tree.RootedAt top := by
  induction as generalizing o id with
  | nil => exact h
  | cons a as ih => exact ih (h.push_link hf.1 id) (by rw [size_attach]; exact hf.2)

/-- The identifier that the next element gets. -/
theorem idAt_size {a n : Nat} (h : a < n) : ElementTree.idAt a n = (n : Int) - a :=
  if_neg (by omega)

theorem numbered_add {a : Nat} (ha : o.tree.Numbered a) (hid : id = ElementTree.idAt a o.size)
    (h : H) : (o.add h id).tree.Numbered a := by
  intro i hi
  show (o.tree.push { id }).id? i = _
  rw [ElementTree.id?_push]
  split
  · next e => rw [e, hid]; rfl
  · next e =>
    refine ha i ?_
    have : i < o.tree.size + 1 := by simpa [add] using hi
    omega

theorem numbered_link {a : Nat} (ha : o.tree.Numbered a) (p c : Nat) :
    (o.link p c).tree.Numbered a := by
  intro i hi
  show (o.tree.link p c).id? i = _
  rw [ElementTree.id?_link]
  exact ha i (by simpa [link] using hi)

theorem numbered_attachAll {a : Nat} {as : List (Nat × H)} (ha : o.tree.Numbered a)
    (hs : a < o.size) (hid : id = o.size - a) : (o.attachAll id as).tree.Numbered a := by
  induction as generalizing o id with
  | nil => exact ha
  | cons b as ih =>
    refine ih (numbered_link (numbered_add ha (by rw [hid, idAt_size hs]) _) _ _) ?_ ?_
    · rw [size_attach]; omega
    · rw [size_attach]; omega

theorem numbered_addAll {a : Nat} {hs : List H} (ha : o.tree.Numbered a) (hn : a < o.size)
    (hid : id = o.size - a) : (o.addAll id hs).tree.Numbered a := by
  induction hs generalizing o id with
  | nil => exact ha
  | cons h hs ih =>
    refine ih (numbered_add ha (by rw [hid, idAt_size hn]) _) ?_ ?_
    · rw [size_add]; omega
    · rw [size_add]; omega

/-- No element has been read yet. -/
def Unread (o : Outline H) : Prop := ∀ i n, o.tree.node? i = some n → n.isPopulated = false

theorem unread_add (ho : o.Unread) (h : H) (id : Int) : (o.add h id).Unread := by
  intro i n hn
  change (o.tree.push { id }).node? i = some n at hn
  rw [ElementTree.node?_push] at hn
  split at hn
  · obtain rfl := Option.some.inj hn
    rfl
  · exact ho i n hn

theorem unread_link (ho : o.Unread) (p c : Nat) : (o.link p c).Unread := by
  intro i n hn
  change (o.tree.link p c).node? i = some n at hn
  rw [ElementTree.node?_link] at hn
  obtain ⟨m, hm, rfl⟩ := Option.map_eq_some_iff.mp hn
  exact ho i m hm

theorem unread_adopt (ho : o.Unread) (p : Nat) (cs : Array Nat) : (o.adopt p cs).Unread := by
  intro i n hn
  change (o.tree.adopt p cs).node? i = some n at hn
  rw [ElementTree.node?_adopt] at hn
  obtain ⟨m, hm, rfl⟩ := Option.map_eq_some_iff.mp hn
  exact ho i m hm

theorem unread_attachAll {as : List (Nat × H)} (ho : o.Unread) : (o.attachAll id as).Unread := by
  induction as generalizing o id with
  | nil => exact ho
  | cons a as ih => exact ih (unread_link (unread_add ho _ _) _ _)

theorem unread_addAll {hs : List H} (ho : o.Unread) : (o.addAll id hs).Unread := by
  induction hs generalizing o id with
  | nil => exact ho
  | cons h hs ih => exact ih (unread_add ho _ _)

end Outline

end UiConformance
