import UiConformance.Proofs.Outline
import UiConformance.Walk.Population

/-!
# What a population changes

Readings change the control type, the patterns and the properties of elements and nothing else:
`sameLinks_populate`. On a platform whose readings do not depend on earlier ones, every element ends
as what one reading of its handle makes of it, in whatever order the parallel pass asks:
`node?_populate`.
-/

namespace UiConformance

/-! ## Links -/

namespace ElementTree

/-- The same elements with the same identifiers, parents and children. -/
structure SameLinks (t t' : ElementTree) : Prop where
  size : t'.size = t.size
  id? : ∀ i, t'.id? i = t.id? i
  parent? : ∀ i, t'.parent? i = t.parent? i
  childrenOf : ∀ i, t'.childrenOf i = t.childrenOf i

variable {t t' t'' : ElementTree}

theorem SameLinks.refl (t : ElementTree) : SameLinks t t :=
  ⟨rfl, fun _ => rfl, fun _ => rfl, fun _ => rfl⟩

theorem SameLinks.trans (h : SameLinks t t') (h' : SameLinks t' t'') : SameLinks t t'' :=
  ⟨h'.size.trans h.size, fun i => (h'.id? i).trans (h.id? i),
    fun i => (h'.parent? i).trans (h.parent? i),
    fun i => (h'.childrenOf i).trans (h.childrenOf i)⟩

theorem sameLinks_modify {f : ElementNode → ElementNode} (hid : ∀ n, (f n).id = n.id)
    (hp : ∀ n, (f n).parent = n.parent) (hc : ∀ n, (f n).children = n.children)
    (t : ElementTree) (i : Nat) : SameLinks t (t.modify i f) := by
  refine ⟨size_modify .., fun j => ?_, fun j => ?_, fun j => ?_⟩
  · unfold ElementTree.id?; rw [node?_modify]
    split <;> cases t.node? j <;> simp [hid]
  · unfold ElementTree.parent?; rw [node?_modify]
    split <;> cases t.node? j <;> simp [hp]
  · unfold ElementTree.childrenOf; rw [node?_modify]
    split <;> cases t.node? j <;> simp [hc]

theorem SameLinks.numbered {a : Nat} (h : SameLinks t t') (hn : t.Numbered a) : t'.Numbered a := by
  intro i hi
  rw [h.id?]
  exact hn i (by rwa [h.size] at hi)

theorem SameLinks.climbs {i j : Nat} (h : SameLinks t t') (hc : t.Climbs i j) : t'.Climbs i j :=
  hc.mono fun i p he => by rw [h.parent?, he]

theorem SameLinks.rootedAt {top : Nat} (h : SameLinks t t') (hr : t.RootedAt top) :
    t'.RootedAt top := by
  obtain ⟨h1, h2, h3, h4, h5, h6⟩ := hr
  refine ⟨by rwa [h.size], by rw [h.parent?, h2], fun i hi hne => ?_, fun i p he => ?_,
    fun p i hi => ?_, fun i hi => ?_⟩
  · rw [h.size] at hi ⊢
    rw [h.parent?]
    exact h3 i hi hne
  · rw [h.parent?] at he
    rw [h.childrenOf]
    exact h4 i p he
  · rw [h.childrenOf] at hi
    rw [h.size, h.parent?]
    exact h5 p i hi
  · rw [h.size] at hi
    exact h.climbs (h6 i hi)

end ElementTree

open ElementTree

variable {H : Type}

namespace Filling

/-! ## One reading -/

section

variable {P : Platform H} {handles : Array H} {f : Filling H} {i : Nat} {h : H} {n : ElementNode}

theorem attempt_none (hh : handles[i]? = none) : attempt P handles f i = f := by
  unfold attempt; rw [hh]

theorem attempt_ok {r : Reading} (hh : handles[i]? = some h) (hr : P.read f.past h = .ok r) :
    attempt P handles f i = ({ f with past := h :: f.past } : Filling H).install i r := by
  simp only [attempt, read, hh, hr]

theorem attempt_error {e : PlatformError} (hh : handles[i]? = some h)
    (hr : P.read f.past h = .error e) :
    attempt P handles f i = { f with past := h :: f.past } := by
  simp only [attempt, read, hh, hr]

theorem finish_outside (hn : f.tree.node? i = none ∨ handles[i]? = none) :
    finish P handles f i = f := by
  unfold finish
  rcases hn with e | e
  · rw [e]
  · rw [e]; cases f.tree.node? i <;> rfl

theorem finish_populated (hn : f.tree.node? i = some n) (hp : n.isPopulated = true) :
    finish P handles f i = f := by
  unfold finish
  rw [hn]
  cases handles[i]? with
  | none => rfl
  | some h => exact if_pos hp

theorem finish_ok {r : Reading} (hn : f.tree.node? i = some n) (hp : n.isPopulated = false)
    (hh : handles[i]? = some h) (hr : P.read f.past h = .ok r) :
    finish P handles f i = ({ f with past := h :: f.past } : Filling H).install i r := by
  simp only [finish, read, hn, hh, hp, hr, Bool.false_eq_true, if_false]

theorem finish_error {e : PlatformError} (hn : f.tree.node? i = some n)
    (hp : n.isPopulated = false) (hh : handles[i]? = some h) (hr : P.read f.past h = .error e) :
    finish P handles f i = ({ f with past := h :: f.past } : Filling H).giveUp i n.id e := by
  simp only [finish, read, hn, hh, hp, hr, Bool.false_eq_true, if_false]

/-- An attempt changes at most the element it asks for, by populating it. -/
theorem attempt_cases (P : Platform H) (handles : Array H) (f : Filling H) (i : Nat) :
    ((attempt P handles f i).tree = f.tree ∧
        (attempt P handles f i).unpopulated = f.unpopulated) ∨
      ∃ h r, handles[i]? = some h ∧ P.read f.past h = .ok r ∧
        attempt P handles f i = ({ f with past := h :: f.past } : Filling H).install i r := by
  cases hh : handles[i]? with
  | none => rw [attempt_none hh]; exact .inl ⟨rfl, rfl⟩
  | some h =>
    cases hr : P.read f.past h with
    | error e => rw [attempt_error hh hr]; exact .inl ⟨rfl, rfl⟩
    | ok r => exact .inr ⟨h, r, rfl, hr, attempt_ok hh hr⟩

/-- Asking again leaves alone what is populated and populates the rest. -/
theorem finish_cases (P : Platform H) (handles : Array H) (f : Filling H) (i : Nat) :
    finish P handles f i = f ∨
      ∃ n h, f.tree.node? i = some n ∧ n.isPopulated = false ∧ handles[i]? = some h ∧
        ((∃ r, P.read f.past h = .ok r ∧
            finish P handles f i = ({ f with past := h :: f.past } : Filling H).install i r) ∨
          ∃ e, P.read f.past h = .error e ∧
            finish P handles f i =
              ({ f with past := h :: f.past } : Filling H).giveUp i n.id e) := by
  cases hn : f.tree.node? i with
  | none => exact .inl (finish_outside (.inl hn))
  | some n =>
  cases hh : handles[i]? with
  | none => exact .inl (finish_outside (.inr hh))
  | some h =>
  cases hp : n.isPopulated with
  | true => exact .inl (finish_populated hn hp)
  | false =>
    refine .inr ⟨n, h, rfl, hp, rfl, ?_⟩
    cases hr : P.read f.past h with
    | ok r => exact .inl ⟨r, rfl, finish_ok hn hp hh hr⟩
    | error e => exact .inr ⟨e, rfl, finish_error hn hp hh hr⟩

end

theorem sameLinks_install (f : Filling H) (i : Nat) (r : Reading) :
    SameLinks f.tree (f.install i r).tree := by
  unfold install
  refine sameLinks_modify (fun n => ?_) (fun n => ?_) (fun n => ?_) f.tree i <;> rfl

theorem sameLinks_giveUp (f : Filling H) (i : Nat) (id : Int) (c : PlatformError) :
    SameLinks f.tree (f.giveUp i id c).tree := by
  unfold giveUp
  refine sameLinks_modify (fun n => ?_) (fun n => ?_) (fun n => ?_) f.tree i <;> rfl

theorem sameLinks_attempt (P : Platform H) (handles : Array H) (f : Filling H) (i : Nat) :
    SameLinks f.tree (attempt P handles f i).tree := by
  rcases attempt_cases P handles f i with ⟨e, -⟩ | ⟨h, r, -, -, e⟩
  · rw [e]; exact .refl _
  · rw [e]; exact sameLinks_install _ i r

theorem sameLinks_finish (P : Platform H) (handles : Array H) (f : Filling H) (i : Nat) :
    SameLinks f.tree (finish P handles f i).tree := by
  rcases finish_cases P handles f i with e | ⟨n, h, -, -, -, ⟨r, -, e⟩ | ⟨c, -, e⟩⟩
  · rw [e]; exact .refl _
  · rw [e]; exact sameLinks_install _ i r
  · rw [e]; exact sameLinks_giveUp _ i n.id c

/-- Asking for one element leaves every other as it is. -/
theorem node?_finish_of_ne (P : Platform H) (handles : Array H) (f : Filling H) {i j : Nat}
    (hij : j ≠ i) : (finish P handles f i).tree.node? j = f.tree.node? j := by
  rcases finish_cases P handles f i with e | ⟨n, h, -, -, -, ⟨r, -, e⟩ | ⟨c, -, e⟩⟩
  · rw [e]
  · rw [e]
    exact (node?_modify ..).trans (if_neg (Ne.symm hij))
  · rw [e]
    exact (node?_modify ..).trans (if_neg (Ne.symm hij))

theorem sameLinks_foldl {f : Filling H → Nat → Filling H}
    (hf : ∀ s i, SameLinks s.tree (f s i).tree) (is : List Nat) (s : Filling H) :
    SameLinks s.tree (is.foldl f s).tree := by
  induction is generalizing s with
  | nil => exact .refl _
  | cons i is ih => exact (hf s i).trans (ih _)

end Filling

/-- Readings leave identifiers, parents and children alone. -/
theorem Outline.sameLinks_populate (o : Outline H) (P : Platform H) (past : List H)
    (order : Option (List Nat)) : SameLinks o.tree (o.populate P past order).tree := by
  unfold populate
  have hattempts := Filling.sameLinks_foldl (Filling.sameLinks_attempt P o.handles)
    (order.getD []) { tree := o.tree, past }
  exact hattempts.trans (Filling.sameLinks_foldl (Filling.sameLinks_finish P o.handles) _ _)

/-! ## Steady platforms -/

/-- An element as one reading of its handle makes it. -/
def Platform.settle (P : Platform H) (h : H) (n : ElementNode) : ElementNode :=
  match P.read [] h with
  | .ok r => n.populate r.controlType r.patterns r.properties
  | .error _ => n.populate n.controlType [] .empty

namespace Platform

variable {P : Platform H} {h : H} {n : ElementNode}

theorem settle_ok {r : Reading} (hr : P.read [] h = .ok r) :
    P.settle h n = n.populate r.controlType r.patterns r.properties := by
  unfold settle; rw [hr]

theorem settle_error {e : PlatformError} (hr : P.read [] h = .error e) :
    P.settle h n = n.populate n.controlType [] .empty := by
  unfold settle; rw [hr]

theorem isPopulated_settle : (P.settle h n).isPopulated = true := by
  unfold settle; split <;> rfl

end Platform

namespace Filling

variable {P : Platform H} {o : Outline H} {f : Filling H} {k : Nat}

/-- The elements before `k` are settled; each of the others is settled or as it was. -/
def Settled (P : Platform H) (o : Outline H) (k : Nat) (f : Filling H) : Prop :=
  ∀ i n h, o.tree.node? i = some n → o.handles[i]? = some h →
    f.tree.node? i = some (P.settle h n) ∨ (k ≤ i ∧ f.tree.node? i = some n)

theorem Settled.attempt (steady : P.Steady) (hf : Settled P o 0 f) (j : Nat) :
    Settled P o 0 (attempt P o.handles f j) := by
  intro i n h hn hh
  rcases attempt_cases P o.handles f j with ⟨e, -⟩ | ⟨h', r, hh', hr, e⟩
  · rw [e]; exact hf i n h hn hh
  rw [e]
  show (f.tree.modify j _).node? i = _ ∨ _ ∧ (f.tree.modify j _).node? i = _
  rw [node?_modify]
  by_cases hij : j = i
  · subst hij
    obtain rfl := Option.some.inj (hh'.symm.trans hh)
    rw [steady f.past []] at hr
    rw [if_pos rfl, Platform.settle_ok hr]
    rcases hf j n h' hn hh with e | ⟨-, e⟩
    · rw [e, Platform.settle_ok hr]; exact .inl rfl
    · rw [e]; exact .inl rfl
  · rw [if_neg hij]
    exact hf i n h hn hh

theorem Settled.finish (steady : P.Steady) (fresh : o.Unread) (hf : Settled P o k f) :
    Settled P o (k + 1) (finish P o.handles f k) := by
  intro i n h hn hh
  by_cases hik : i = k
  · subst hik
    left
    rcases hf i n h hn hh with e | ⟨-, e⟩
    · rw [finish_populated e Platform.isPopulated_settle, e]
    · cases hr : P.read f.past h with
      | ok r =>
        rw [finish_ok e (fresh i n hn) hh hr]
        show (f.tree.modify i _).node? i = _
        rw [steady f.past []] at hr
        rw [node?_modify, if_pos rfl, e, Platform.settle_ok hr]; rfl
      | error c =>
        rw [finish_error e (fresh i n hn) hh hr]
        show (f.tree.modify i _).node? i = _
        rw [steady f.past []] at hr
        rw [node?_modify, if_pos rfl, e, Platform.settle_error hr]; rfl
  · rw [node?_finish_of_ne P o.handles f hik]
    rcases hf i n h hn hh with e | ⟨hle, e⟩
    · exact .inl e
    · exact .inr ⟨by omega, e⟩

theorem settled_attempts (steady : P.Steady) (is : List Nat) (hf : Settled P o 0 f) :
    Settled P o 0 (is.foldl (Filling.attempt P o.handles) f) := by
  induction is generalizing f with
  | nil => exact hf
  | cons i is ih => exact ih (hf.attempt steady i)

theorem settled_finishes (steady : P.Steady) (fresh : o.Unread) (hf : Settled P o 0 f) :
    ∀ k, Settled P o k ((List.range k).foldl (Filling.finish P o.handles) f)
  | 0 => hf
  | k + 1 => by
    rw [List.range_succ, List.foldl_append]
    exact (settled_finishes steady fresh hf k).finish steady fresh

end Filling

/-- On a steady platform every element is what one reading of its handle makes of it. -/
theorem Outline.node?_populate {P : Platform H} (steady : P.Steady) {o : Outline H}
    (fresh : o.Unread) (past : List H) (order : Option (List Nat)) {i : Nat} {n : ElementNode}
    {h : H} (hn : o.tree.node? i = some n) (hh : o.handles[i]? = some h) :
    (o.populate P past order).tree.node? i = some (P.settle h n) := by
  have hstart : Filling.Settled P o 0 { tree := o.tree, past } :=
    fun i n h hn _ => .inr ⟨Nat.zero_le i, hn⟩
  have hall := Filling.settled_finishes steady fresh
    (Filling.settled_attempts steady (order.getD []) hstart) o.size
  rcases hall i n h hn hh with e | ⟨hle, -⟩
  · exact e
  · have hlt : i < o.size := lt_size_of_node? hn
    omega

namespace Filling

variable {P : Platform H} {handles : Array H}

theorem unpopulated_attempts (is : List Nat) (f : Filling H) :
    (is.foldl (attempt P handles) f).unpopulated = f.unpopulated := by
  induction is generalizing f with
  | nil => rfl
  | cons i is ih =>
    rw [List.foldl_cons, ih]
    rcases attempt_cases P handles f i with ⟨-, e⟩ | ⟨h, r, -, -, e⟩
    · exact e
    · rw [e]; rfl

theorem unpopulated_finishes (reads : ∀ past, ∀ h ∈ handles, ∃ r, P.read past h = .ok r)
    (is : List Nat) (f : Filling H) :
    (is.foldl (finish P handles) f).unpopulated = f.unpopulated := by
  induction is generalizing f with
  | nil => rfl
  | cons i is ih =>
    rw [List.foldl_cons, ih]
    rcases finish_cases P handles f i with e | ⟨n, h, -, -, hh, ⟨r, -, e⟩ | ⟨c, hr, e⟩⟩
    · rw [e]
    · rw [e]; rfl
    · obtain ⟨r, hr'⟩ := reads f.past h (Array.mem_of_getElem? hh)
      rw [hr'] at hr; cases hr

end Filling

/-- Where every reading succeeds, no element is left without properties. -/
theorem Outline.unpopulated_populate {P : Platform H} {o : Outline H}
    (reads : ∀ past, ∀ h ∈ o.handles, ∃ r, P.read past h = .ok r) (past : List H)
    (order : Option (List Nat)) : (o.populate P past order).unpopulated = 0 := by
  unfold populate
  simp only
  rw [Filling.unpopulated_finishes reads, Filling.unpopulated_attempts]

end UiConformance
