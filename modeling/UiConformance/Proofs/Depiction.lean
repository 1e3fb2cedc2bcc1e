import Mathlib.Data.List.Forall2
import UiConformance.Proofs.Evaluation
import UiConformance.Proofs.SnapshotWalk

/-!
# Pictures of a whole document

A walk from the root of a document with a budget for all of it gives a picture of the document: each
element is what the document says of a node, with children that are what it says of the node's
children, and there is an element for each node.
-/

namespace UiConformance

open Rose SnapshotTree

namespace Element

def Carries (e : Element) (r : Reading) : Prop := e.tree.Carries e.index r

/-- The element is what a document says of a node, and its children are so of the node's. -/
structure Depicts (e : Element) (u : Rose Reading) : Prop where
  carries : e.Carries u.value
  children : List.Forall₂ (fun k v => k.Carries v.value) e.children u.children

variable {e : Element} {r : Reading} {u : Rose Reading}

theorem Carries.controlType (h : e.Carries r) : e.controlType = r.controlType := by
  obtain ⟨n, hn, hc, -, -⟩ := h
  rw [ElementTree.node?_index rfl] at hn
  cases hn
  exact hc

theorem Carries.property? (h : e.Carries r) (p : PropertyId) :
    e.property? p = r.properties.get? p := by
  obtain ⟨n, hn, -, -, hb⟩ := h
  rw [ElementTree.node?_index rfl] at hn
  cases hn
  show e.node.properties.bind _ = _
  rw [hb]
  rfl

theorem forall₂_at? {is : List Nat} {us : List (Rose Reading)}
    (h : List.Forall₂ (fun i v => e.tree.Carries i v.value) is us) :
    List.Forall₂ (fun k v => k.Carries v.value) (is.filterMap e.at?) us := by
  induction h with
  | nil => exact .nil
  | @cons i v is us hi _ ih =>
    have hlt : i < e.tree.size := by
      obtain ⟨n, hn, -⟩ := hi
      exact ElementTree.lt_size_of_node? hn
    have hat : e.at? i = some ⟨e.tree, i, hlt⟩ := dif_pos hlt
    rw [List.filterMap_cons, hat]
    exact .cons hi ih

/-- A test of one child is a test of one of the node's children. -/
theorem Depicts.exists_child_iff (h : e.Depicts u) {P : Element → Prop} {Q : Reading → Prop}
    (hPQ : ∀ k r, Carries k r → (P k ↔ Q r)) :
    (∃ k ∈ e.children, P k) ↔ ∃ v ∈ u.children, Q v.value := by
  have hchildren := h.children
  generalize e.children = ks at hchildren
  generalize u.children = vs at hchildren
  induction hchildren with
  | nil => simp
  | cons hk _ ih =>
    rw [List.exists_mem_cons_iff, List.exists_mem_cons_iff]
    exact or_congr (hPQ _ _ hk) ih

end Element

namespace ElementTree

variable {t : ElementTree} {i n : Nat} {r : Reading} {us : List (Rose Reading)} {u : Rose Reading}
  {doc : Rose Reading} {wanted : Bool}

/-- Every element is what the document says of one of its nodes, and every node has an element. -/
structure Pictures (t : ElementTree) (doc : Rose Reading) : Prop where
  exists_place : ∀ e ∈ t.elements, ∃ p : Place Reading, p.whole = doc ∧ e.Depicts p.focus
  exists_element : ∀ p : Place Reading, p.whole = doc → ∃ e ∈ t.elements, e.Depicts p.focus

/-- What elements share with what they depict holds of all elements iff it holds of all nodes. -/
theorem Pictures.forall_iff (h : t.Pictures doc) {P : Element → Prop} {Q : Rose Reading → Prop}
    (hPQ : ∀ e u, e.Depicts u → (P e ↔ Q u)) :
    (∀ e ∈ t.elements, P e) ↔ ∀ p : Place Reading, p.whole = doc → Q p.focus := by
  constructor
  · intro hall p hp
    obtain ⟨e, he, hd⟩ := h.exists_element p hp
    exact (hPQ e _ hd).mp (hall e he)
  · intro hall e he
    obtain ⟨p, hp, hd⟩ := h.exists_place e he
    exact (hPQ e _ hd).mpr (hall p hp)

/-! ## What is shown is depicted -/

namespace Numbered

variable {a : Nat}

theorem carries_of_shows (hn : t.Numbered a) {id : Int} {ids : List Int} (hi : t.id? i = some id)
    (h : t.Shows id r ids) : t.Carries i r ∧ (t.childrenOf i).map t.id? = ids.map some := by
  obtain ⟨k, hk, hcarries, hchildren⟩ := h
  obtain rfl := Option.some.inj (hk.symm.trans (hn.find?_eq_some_iff.mpr hi))
  exact ⟨hcarries, hchildren⟩

theorem carries_of_showsForest (hn : t.Numbered a) {is : List Nat}
    (his : is.map t.id? = ((starts n us).map Int.ofNat).map some) (h : t.ShowsForest n us) :
    List.Forall₂ (fun i v => t.Carries i v.value) is us := by
  induction us generalizing n is with
  | nil =>
    obtain rfl := List.map_eq_nil_iff.mp his
    exact .nil
  | cons v us ih =>
    rw [starts, List.map_cons, List.map_cons] at his
    obtain ⟨i, is, rfl, hi, his⟩ := List.map_eq_cons_iff.mp his
    rw [ShowsForest, showsTree_iff] at h
    exact .cons (hn.carries_of_shows hi h.1.1).1 (ih his h.2)

theorem depicts_of_showsTree {e : Element} (hn : e.tree.Numbered a) {m : Nat} (hid : e.id = m)
    (h : e.tree.ShowsTree m n u) : e.Depicts u := by
  obtain ⟨hroot, hbelow⟩ := showsTree_iff.mp h
  have hm : e.tree.id? e.index = some (m : Int) := by
    rw [id?, node?_index rfl, ← hid]
    rfl
  obtain ⟨hcarries, hchildren⟩ := hn.carries_of_shows hm hroot
  refine ⟨hcarries, ?_⟩
  rw [e.children_eq]
  exact Element.forall₂_at? (hn.carries_of_showsForest hchildren hbelow)

end Numbered

theorem showsForest_append {ts us : List (Rose Reading)} : t.ShowsForest n (ts ++ us) ↔
    t.ShowsForest n ts ∧ t.ShowsForest (n + sizeForest ts) us := by
  induction ts generalizing n with
  | nil => simp [ShowsForest, sizeForest]
  | cons u ts ih =>
    rw [List.cons_append, ShowsForest, ShowsForest, ih, sizeForest, Nat.add_assoc, and_assoc]

/-- With a tree, each branch of it is shown, as far from the root as its number says. -/
theorem showsTree_of_plugAll {cs : List (Crumb Reading)}
    (h : t.ShowsTree n (n + 1) (Crumb.plugAll cs u)) :
    t.ShowsTree (n + Crumb.offset cs) (n + Crumb.offset cs + 1) u := by
  induction cs generalizing u with
  | nil => exact h
  | cons c cs ih =>
    have hplug := (showsTree_iff.mp (ih h)).2
    have hbranch := (showsForest_append.mp hplug).2
    rw [ShowsForest, Nat.add_assoc n, Nat.add_assoc n] at hbranch
    exact hbranch.1

theorem idAt_zero (i : Nat) : idAt 0 i = i := by
  unfold idAt
  split <;> omega

/-- A faithful picture around the root is one of the whole document. -/
theorem Faithful.pictures (h : t.Faithful ⟨doc, []⟩ wanted) (hn : t.Numbered 0) :
    t.Pictures doc := by
  have hdepicts : ∀ (e : Element) (p : Place Reading), e.tree = t → p.whole = doc →
      p.number = e.index → e.Depicts p.focus := by
    rintro e p rfl rfl hnum
    have hshown := showsTree_of_plugAll (n := 0) h.subtree
    rw [Nat.zero_add] at hshown
    refine hn.depicts_of_showsTree ?_ hshown
    rw [hn.id_eq rfl, idAt_zero, ← hnum]
    rfl
  have hsize : t.size = doc.size := by
    rw [h.size, ← node_value_children doc, Rose.size]
    show 1 + 0 + sizeForest doc.children + (Place.context ⟨doc, []⟩ wanted).length = _
    cases wanted <;> rfl
  constructor
  · intro e he
    rw [mem_elements_iff] at he
    have hlt : e.index < doc.size := by
      rw [← hsize, ← he]
      exact e.inside
    obtain ⟨p, hp, hnum⟩ := Place.exists_place doc hlt
    exact ⟨p, hp, hdepicts e p he hp hnum⟩
  · intro p hp
    have hlt : p.number < t.size := by
      have := p.number_add_size_le
      have := p.focus.size_pos
      rw [hsize, ← hp]
      omega
    exact ⟨⟨t, p.number, hlt⟩, mem_elements_iff.mpr rfl, hdepicts _ p rfl hp rfl⟩

end ElementTree

/-! ## Walks -/

namespace Walker

variable {doc : Rose Reading} {w : Walker SnapshotHandle} {b : Int} {r : Option Runner}

/-- A walk from the root whose bound is enough for the other nodes gives a picture of all. -/
theorem exists_picture (hp : w.platform = (ofRose doc).platform)
    (hb : Counter.ofBound b = .ok w.counter) (hle : (doc.size : Int) - 1 ≤ b)
    (hr : w.runnerNeeded = .ok r) (s : Schedule) :
    ∃ scan after journal, w.walkUnder s (ofRose doc).root = (.ok scan, after, journal) ∧
      scan.tree.Pictures doc := by
  have hnone : (Place.context ⟨doc, []⟩ w.options.siblingContext).length = 0 := by
    cases w.options.siblingContext <;> rfl
  have hwants : w.wants ⟨doc, []⟩ + 1 = doc.size := by
    rw [wants, hnone, ← node_value_children doc, Rose.size]
    exact Nat.add_comm _ _
  obtain ⟨scan, after, journal, c, o, m, k, hw, hd⟩ := exists_shape hr s (ofRose doc).root
  have hroot : w.Draws ⟨Place.number ⟨doc, []⟩⟩ scan after c o m k := hd
  have hrem : c.remaining = b.toNat - 0 := (hroot.spent hp hb).1
  have hfaithful := (hroot.faithful hp (by omega)).1
  have hnumbered := numbered_walkUnder hr hw
  have hancestry : (ancestry (ofRose doc).platform (ofRose doc).root).1 = [] :=
    ancestry_ofRose ⟨doc, []⟩
  rw [hp, hancestry] at hnumbered
  exact ⟨scan, after, journal, hw, hfaithful.pictures hnumbered⟩

end Walker

end UiConformance
