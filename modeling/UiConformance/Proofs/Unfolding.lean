import UiConformance.Proofs.Sweep
import UiConformance.Rose

/-!
# Platforms that are trees

`P.Unfolds c ts` says that from the cursor `c` first children and next siblings unfold as the forest
`ts` of handles, where a call that fails leads nowhere; `P.Enumerates c ts` says so where no call
fails. On such a platform the phases of a walk have closed forms: a descent admits the beginning, as
long as the budget, of the forest in document order, and a sweep the beginning of its roots.
Attached as a whole, the forest nests as it did on the platform.
-/

namespace UiConformance

/-! ## Forests as attachments -/

namespace Rose

variable {α : Type}

/-- The positions of sibling trees, the first of which is at `n`. -/
def starts (n : Nat) : List (Rose α) → List Nat
  | [] => []
  | t :: ts => n :: starts (n + t.size) ts

theorem length_starts (n : Nat) (ts : List (Rose α)) : (starts n ts).length = ts.length := by
  induction ts generalizing n with
  | nil => rfl
  | cons t ts ih => rw [starts, List.length_cons, ih, List.length_cons]

theorem starts_append (n : Nat) (ts us : List (Rose α)) :
    starts n (ts ++ us) = starts n ts ++ starts (n + sizeForest ts) us := by
  induction ts generalizing n with
  | nil => rfl
  | cons t ts ih => rw [List.cons_append, starts, ih, starts, sizeForest, Nat.add_assoc]; rfl

theorem mem_starts {n i : Nat} {ts : List (Rose α)} (h : i ∈ starts n ts) :
    n ≤ i ∧ i < n + sizeForest ts := by
  induction ts generalizing n with
  | nil => cases h
  | cons t ts ih =>
    have := t.size_pos
    rw [sizeForest]
    rcases List.mem_cons.mp h with rfl | h
    · omega
    · have := ih h
      omega

mutual

/-- The attachments that add a tree in document order, its root below `p` and at position `n`. -/
def attachments (n p : Nat) : Rose α → List (Nat × α)
  | .node a ts => (p, a) :: attachmentsForest (n + 1) n ts

def attachmentsForest (n p : Nat) : List (Rose α) → List (Nat × α)
  | [] => []
  | t :: ts => attachments n p t ++ attachmentsForest (n + t.size) p ts

end

mutual

theorem map_snd_attachments (n p : Nat) : (t : Rose α) →
    (attachments n p t).map (·.2) = t.preorder
  | .node a ts => by
    rw [attachments, List.map_cons, map_snd_attachmentsForest, preorder]

theorem map_snd_attachmentsForest (n p : Nat) : (ts : List (Rose α)) →
    (attachmentsForest n p ts).map (·.2) = preorderForest ts
  | [] => rfl
  | t :: ts => by
    rw [attachmentsForest, List.map_append, map_snd_attachments, map_snd_attachmentsForest,
      preorderForest]

end

theorem length_attachments (n p : Nat) (t : Rose α) : (attachments n p t).length = t.size := by
  rw [← t.length_preorder, ← map_snd_attachments n p, List.length_map]

theorem length_attachmentsForest (n p : Nat) (ts : List (Rose α)) :
    (attachmentsForest n p ts).length = sizeForest ts := by
  rw [← length_preorderForest, ← map_snd_attachmentsForest n p, List.length_map]

mutual

/-- Everything is attached below the start or within the tree. -/
theorem parent_mem_attachments (n p : Nat) : (t : Rose α) →
    ∀ a ∈ attachments n p t, a.1 = p ∨ n ≤ a.1
  | .node a ts => by
    intro b hb
    rw [attachments] at hb
    rcases List.mem_cons.mp hb with rfl | hb
    · exact .inl rfl
    · rcases parent_mem_attachmentsForest (n + 1) n ts b hb with e | e <;> right <;> omega

theorem parent_mem_attachmentsForest (n p : Nat) : (ts : List (Rose α)) →
    ∀ a ∈ attachmentsForest n p ts, a.1 = p ∨ n ≤ a.1
  | [] => by
    intro b hb
    rw [attachmentsForest] at hb
    cases hb
  | t :: ts => by
    intro b hb
    rw [attachmentsForest] at hb
    rcases List.mem_append.mp hb with hb | hb
    · exact parent_mem_attachments n p t b hb
    · rcases parent_mem_attachmentsForest (n + t.size) p ts b hb with e | e
      · exact .inl e
      · right; omega

end

end Rose

/-! ## Unfolding -/

variable {H : Type}

namespace Platform

inductive Unfolds (P : Platform H) : Option H → List (Rose H) → Prop
  | done : Unfolds P none []
  | node {h : H} {ts us : List (Rose H)} :
      Unfolds P (P.reach? .firstChild h) ts → Unfolds P (P.reach? .nextSibling h) us →
      Unfolds P (some h) (.node h ts :: us)

inductive Enumerates (P : Platform H) : Option H → List (Rose H) → Prop
  | done : Enumerates P none []
  | node {h : H} {first next : Option H} {ts us : List (Rose H)} :
      P.navigate .firstChild h = .ok first → P.navigate .nextSibling h = .ok next →
      Enumerates P first ts → Enumerates P next us → Enumerates P (some h) (.node h ts :: us)

theorem reach?_of_ok {P : Platform H} {n : Navigation} {h : H} {next : Option H}
    (hn : P.navigate n h = .ok next) : P.reach? n h = next := by
  rw [reach?, hn]

theorem Enumerates.unfolds {P : Platform H} {c : Option H} {ts : List (Rose H)}
    (h : P.Enumerates c ts) : P.Unfolds c ts := by
  induction h with
  | done => exact .done
  | node hfirst hnext _ _ ih₁ ih₂ =>
    rw [← reach?_of_ok hfirst] at ih₁
    rw [← reach?_of_ok hnext] at ih₂
    exact .node ih₁ ih₂

/-- What is enumerated from a cursor is determined by the platform. -/
theorem Enumerates.unique {P : Platform H} {c : Option H} {ts us : List (Rose H)}
    (h : P.Enumerates c ts) (h' : P.Enumerates c us) : ts = us := by
  induction h generalizing us with
  | done =>
    cases h'
    rfl
  | node hfirst hnext _ _ ih₁ ih₂ =>
    cases h' with
    | node hfirst' hnext' h₁ h₂ =>
      obtain rfl := Except.ok.inj (hfirst.symm.trans hfirst')
      obtain rfl := Except.ok.inj (hnext.symm.trans hnext')
      rw [ih₁ h₁, ih₂ h₂]

end Platform

open Rose

/-- A descent into a finite forest attaches as much of it as the budget allows, and has a request
refused exactly where that is not all. -/
theorem Descends.eq_take {P : Platform H} {b n p : Nat} {c : Option H} {as : List (Nat × H)}
    {k : Nat} {ts : List (Rose H)} (h : Descends P b n p c as k) (hu : P.Unfolds c ts) :
    as = (attachmentsForest n p ts).take b ∧ (0 < k ↔ b < sizeForest ts) := by
  induction h generalizing ts with
  | done b n p =>
    cases hu
    refine ⟨?_, ?_⟩
    · rw [attachmentsForest]; exact List.take_nil.symm
    · rw [sizeForest]; omega
  | refused n p h =>
    cases hu with
    | node =>
      refine ⟨rfl, ?_⟩
      rw [sizeForest, size]
      omega
  | @admitted b n p h as bs k l h₁ h₂ ih₁ ih₂ =>
    cases hu with
    | @node _ ts us hu₁ hu₂ =>
      obtain ⟨has, hk⟩ := ih₁ hu₁
      obtain ⟨hbs, hl⟩ := ih₂ hu₂
      have hlen : as.length = min b (sizeForest ts) := by
        rw [has, List.length_take, length_attachmentsForest]
      rw [attachmentsForest, attachments, sizeForest, size, List.cons_append, List.take_succ_cons,
        List.take_append, ← has, length_attachmentsForest]
      rcases Nat.lt_or_ge b (sizeForest ts) with hb | hb
      · -- The budget ends below the first element, so nothing of what follows it is admitted.
        have hnil : bs = [] :=
          List.eq_nil_of_length_eq_zero (by have := h₂.length_le; omega)
        refine ⟨?_, by omega⟩
        rw [hnil, show b - sizeForest ts = 0 by omega, List.take_zero]
      · refine ⟨?_, by omega⟩
        rw [show b - as.length = b - sizeForest ts by omega,
          show n + 1 + as.length = n + (1 + sizeForest ts) by omega] at hbs
        rw [hbs]

/-! ## Sweeps -/

/-- The slot of a handle among the children of the selected element's parent. -/
def slotOf [DecidableEq H] (selected h : H) : Option H := if h = selected then none else some h

/-- A sweep over handles among which the selected element is at most once takes as many of the
others as the budget allows, and has a request refused exactly where these are not all. -/
theorem Sweeps.eq_take [DecidableEq H] {P : Platform H} {selected : H} {b : Nat} {seen : Bool}
    {c : Option H} {slots : List (Option H)} {k : Nat} {ts : List (Rose H)}
    (h : Sweeps P selected b seen c slots k) (hu : P.Unfolds c ts)
    (hone : (ts.map value).count selected + (if seen then 1 else 0) ≤ 1) :
    newcomers slots = (newcomers ((ts.map value).map (slotOf selected))).take b ∧
      (0 < k ↔ b < (newcomers ((ts.map value).map (slotOf selected))).length) ∧
      (k = 0 → slots = (ts.map value).map (slotOf selected)) := by
  induction h generalizing ts with
  | finished b seen =>
    cases hu
    simp
  | again b =>
    cases hu with
    | node =>
      rw [List.map_cons, value, List.count_cons_self, if_pos rfl] at hone
      omega
  | selected _ ih =>
    cases hu with
    | @node _ ts us _ hu₂ =>
      rw [List.map_cons, value, List.count_cons_self] at hone
      obtain ⟨h1, h2, h3⟩ := ih hu₂ (by rw [if_pos rfl]; omega)
      have hslot : slotOf selected selected = none := if_pos rfl
      rw [List.map_cons, List.map_cons, value, hslot, newcomers_none, newcomers_none]
      exact ⟨h1, h2, fun hk => by rw [h3 hk]⟩
  | @refused seen h hne =>
    cases hu with
    | @node _ ts us =>
      have hslot : slotOf selected h = some h := if_neg hne
      rw [List.map_cons, List.map_cons, value, hslot, newcomers_some]
      exact ⟨rfl, by simp, fun hk => by cases hk⟩
  | @admitted b seen h slots k hne _ ih =>
    cases hu with
    | @node _ ts us _ hu₂ =>
      rw [List.map_cons, value, List.count_cons_of_ne hne] at hone
      obtain ⟨h1, h2, h3⟩ := ih hu₂ hone
      have hslot : slotOf selected h = some h := if_neg hne
      rw [List.map_cons, List.map_cons, value, hslot, newcomers_some, newcomers_some,
        List.take_succ_cons, List.length_cons]
      exact ⟨by rw [h1], by omega, fun hk => by rw [h3 hk]⟩

theorem newcomers_map_some (hs : List H) : newcomers (hs.map some) = hs := by
  induction hs with
  | nil => rfl
  | cons h hs ih => rw [List.map_cons, newcomers_some, ih]

theorem positions_map_some (index n : Nat) (hs : List H) :
    positions index n (hs.map some) = List.range' n hs.length := by
  induction hs generalizing n with
  | nil => rfl
  | cons h hs ih => rw [List.map_cons, positions, ih, List.length_cons, List.range'_succ]

theorem map_slotOf_of_not_mem [DecidableEq H] {selected : H} {hs : List H}
    (h : selected ∉ hs) : hs.map (slotOf selected) = hs.map some := by
  refine List.map_congr_left fun a ha => if_neg ?_
  rintro rfl
  exact h ha

/-- The slots of handles among which the selected element is once. -/
theorem map_slotOf_append [DecidableEq H] {selected : H} {before after : List H}
    (hb : selected ∉ before) (ha : selected ∉ after) :
    (before ++ selected :: after).map (slotOf selected) =
      before.map some ++ none :: after.map some := by
  rw [List.map_append, List.map_cons, map_slotOf_of_not_mem hb, map_slotOf_of_not_mem ha, slotOf,
    if_pos rfl]

/-! ## Nesting -/

namespace Rose

variable {α : Type}

mutual

/-- The children lists `f` are those of the tree, with its root at `i` and the other nodes from `n`
in document order. -/
def Nests (f : Nat → List Nat) (i n : Nat) : Rose α → Prop
  | .node _ ts => f i = starts n ts ∧ NestsForest f n ts

def NestsForest (f : Nat → List Nat) (n : Nat) : List (Rose α) → Prop
  | [] => True
  | t :: ts => Nests f n (n + 1) t ∧ NestsForest f (n + t.size) ts

end

mutual

theorem Nests.congr {f g : Nat → List Nat} : (t : Rose α) → ∀ {i n : Nat}, f i = g i →
    (∀ j, n ≤ j → j + 1 < n + t.size → f j = g j) → Nests f i n t → Nests g i n t
  | .node a ts, i, n, hi, hfg, h => by
    rw [Nests] at h ⊢
    rw [size] at hfg
    exact ⟨hi ▸ h.1, NestsForest.congr ts (fun j h1 h2 => hfg j h1 (by omega)) h.2⟩

theorem NestsForest.congr {f g : Nat → List Nat} : (ts : List (Rose α)) → ∀ {n : Nat},
    (∀ j, n ≤ j → j < n + sizeForest ts → f j = g j) → NestsForest f n ts → NestsForest g n ts
  | [], n, _, _ => by rw [NestsForest]; trivial
  | t :: ts, n, hfg, h => by
    rw [NestsForest] at h ⊢
    rw [sizeForest] at hfg
    have := t.size_pos
    exact ⟨Nests.congr t (hfg n (by omega) (by omega)) (fun j h1 h2 => hfg j (by omega) (by omega))
      h.1, NestsForest.congr ts (fun j h1 h2 => hfg j (by omega) (by omega)) h.2⟩

end

end Rose

namespace Outline

open Rose

/-- Attachments leave alone the children of elements they are not below. -/
theorem childrenOf_attachAll_of_ne {o : Outline H} {id : Int} {as : List (Nat × H)} {i : Nat}
    (hi : i < o.size) (hp : ∀ a ∈ as, i ≠ a.1) :
    (o.attachAll id as).tree.childrenOf i = o.tree.childrenOf i := by
  unfold ElementTree.childrenOf
  rw [node?_attachAll_of_ne hi hp]

theorem childrenOf_attach {o : Outline H} {p : Nat} (hp : p < o.size) (h : H) (id : Int) :
    (o.attach p h id).tree.childrenOf p = o.tree.childrenOf p ++ [o.size] ∧
      (o.attach p h id).tree.childrenOf o.size = [] := by
  change ((o.tree.push { id }).link p o.size).childrenOf p = _ ∧
    ((o.tree.push { id }).link p o.size).childrenOf o.size = _
  have hp' : p < (o.tree.push { id }).size := by
    rw [ElementTree.size_push]
    exact Nat.lt_succ_of_lt hp
  rw [ElementTree.childrenOf_link hp', if_pos rfl, ElementTree.childrenOf_link hp',
    if_neg (Nat.ne_of_gt hp), ElementTree.childrenOf_push, ElementTree.childrenOf_push]
  exact ⟨rfl, ElementTree.childrenOf_of_ge (Nat.le_refl _)⟩

mutual

/-- A tree that is attached as a whole nests as it did. -/
theorem nests_attachAll {p n : Nat} : (t : Rose H) → ∀ {o : Outline H} (id : Int), o.size = n →
    p < n → (o.attachAll id (attachments n p t)).tree.childrenOf p = o.tree.childrenOf p ++ [n] ∧
      Nests (o.attachAll id (attachments n p t)).tree.childrenOf n (n + 1) t
  | .node h ts, o, id, hn, hp => by
    subst hn
    obtain ⟨hold, hnew⟩ := childrenOf_attach hp h id
    have hsize : (o.attach p h id).size = o.size + 1 := size_attach ..
    obtain ⟨hroot, hbelow⟩ :=
      nestsForest_attachAll ts (id + 1) hsize (Nat.lt_succ_self o.size)
    rw [attachments, attachAll, Nests]
    refine ⟨?_, ?_, hbelow⟩
    · rw [childrenOf_attachAll_of_ne (by omega), hold]
      intro a ha
      rcases parent_mem_attachmentsForest _ _ ts a ha with e | e <;> omega
    · rw [hroot, hnew, List.nil_append]

theorem nestsForest_attachAll {p n : Nat} : (ts : List (Rose H)) → ∀ {o : Outline H} (id : Int),
    o.size = n → p < n →
      (o.attachAll id (attachmentsForest n p ts)).tree.childrenOf p =
          o.tree.childrenOf p ++ starts n ts ∧
        NestsForest (o.attachAll id (attachmentsForest n p ts)).tree.childrenOf n ts
  | [], o, id, hn, hp => by
    rw [attachmentsForest, starts, List.append_nil, NestsForest]
    exact ⟨rfl, trivial⟩
  | t :: ts, o, id, hn, hp => by
    have ht := t.size_pos
    obtain ⟨hold, hnests⟩ := nests_attachAll t id hn hp
    have hsize : (o.attachAll id (attachments n p t)).size = n + t.size := by
      rw [size_attachAll, length_attachments, hn]
    rw [attachmentsForest, attachAll_append, starts, NestsForest]
    generalize o.attachAll id (attachments n p t) = o' at hold hnests hsize
    obtain ⟨hroot, hrest⟩ := nestsForest_attachAll (p := p) ts
      (id + (attachments n p t).length) hsize (by omega)
    -- What follows the first tree is attached below `p`, not within it.
    have hkeep : ∀ j, n ≤ j → j < n + t.size → o'.tree.childrenOf j =
        (o'.attachAll (id + (attachments n p t).length)
          (attachmentsForest (n + t.size) p ts)).tree.childrenOf j := fun j h1 h2 => by
      refine (childrenOf_attachAll_of_ne (i := j) (by omega) fun a ha => ?_).symm
      rcases parent_mem_attachmentsForest _ _ ts a ha with e | e <;> omega
    refine ⟨?_, ?_, hrest⟩
    · rw [hroot, hold, List.append_assoc]
      rfl
    · exact Nests.congr t (hkeep n (Nat.le_refl n) (by omega))
        (fun j h1 h2 => hkeep j (by omega) (by omega)) hnests

end

end Outline

end UiConformance
