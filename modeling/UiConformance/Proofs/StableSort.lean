import Mathlib.Data.List.Pairwise

/-!
# Stable sorting by a key

Merge sort is stable: what has one key keeps its order. A sorted list is determined by the parts of
each key. So sorting what is gathered from members that have a key each is the same as gathering it
from the members sorted.
-/

namespace UiConformance

variable {α β : Type} {key : α → Int}

def sortOn (key : α → Int) (l : List α) : List α :=
  l.mergeSort fun a b => decide (key a ≤ key b)

theorem sortOn_perm (key : α → Int) (l : List α) : (sortOn key l).Perm l :=
  List.mergeSort_perm l _

section Order

variable (key : α → Int)

theorem keyLe_trans (a b c : α) (h1 : decide (key a ≤ key b) = true)
    (h2 : decide (key b ≤ key c) = true) : decide (key a ≤ key c) = true := by
  rw [decide_eq_true_eq] at h1 h2 ⊢
  exact Int.le_trans h1 h2

theorem keyLe_total (a b : α) : (decide (key a ≤ key b) || decide (key b ≤ key a)) = true := by
  rw [Bool.or_eq_true, decide_eq_true_eq, decide_eq_true_eq]
  exact Int.le_total _ _

theorem pairwise_sortOn (l : List α) : (sortOn key l).Pairwise fun a b => key a ≤ key b :=
  (List.pairwise_mergeSort (keyLe_trans key) (keyLe_total key) l).imp fun h => of_decide_eq_true h

theorem filter_sortOn (k : Int) (l : List α) :
    (sortOn key l).filter (fun a => key a == k) = l.filter fun a => key a == k := by
  have hsorted : (l.filter fun a => key a == k).Pairwise fun a b =>
      decide (key a ≤ key b) = true := by
    rw [List.pairwise_filter]
    apply List.pairwise_of_forall
    intro a b ha hb
    rw [eq_of_beq ha, eq_of_beq hb]
    exact decide_eq_true (Int.le_refl k)
  have hsub := (List.sublist_mergeSort (keyLe_trans key) (keyLe_total key) hsorted
    List.filter_sublist).filter fun a => key a == k
  rw [List.filter_filter] at hsub
  simp only [Bool.and_self] at hsub
  exact (hsub.eq_of_length ((sortOn_perm key l).filter _).length_eq.symm).symm

end Order

theorem key_head_le {x y : α} {ys : List α} (hy : (y :: ys).Pairwise fun a b => key a ≤ key b)
    (hx : x ∈ y :: ys) : key y ≤ key x := by
  rcases List.mem_cons.mp hx with rfl | hx
  · exact Int.le_refl _
  · exact (List.pairwise_cons.mp hy).1 x hx

theorem mem_of_filter_eq {x : α} {xs ys : List α} (hx : x ∈ xs)
    (h : ∀ k, xs.filter (fun a => key a == k) = ys.filter fun a => key a == k) : x ∈ ys := by
  have hm : x ∈ xs.filter fun a => key a == key x := List.mem_filter.mpr ⟨hx, beq_self_eq_true _⟩
  rw [h] at hm
  exact (List.mem_filter.mp hm).1

/-- Sorted lists with the same members of each key, in the same order, are equal. -/
theorem eq_of_filter_eq {xs ys : List α} (hx : xs.Pairwise fun a b => key a ≤ key b)
    (hy : ys.Pairwise fun a b => key a ≤ key b)
    (h : ∀ k, xs.filter (fun a => key a == k) = ys.filter fun a => key a == k) : xs = ys := by
  induction xs generalizing ys with
  | nil =>
    cases ys with
    | nil => rfl
    | cons y ys => simpa using h (key y)
  | cons x xs ih =>
    cases ys with
    | nil => simpa using h (key x)
    | cons y ys =>
      have hkey : key x = key y := Int.le_antisymm
        (key_head_le hx (mem_of_filter_eq List.mem_cons_self fun k => (h k).symm))
        (key_head_le hy (mem_of_filter_eq List.mem_cons_self h))
      have hhead := h (key x)
      rw [List.filter_cons_of_pos (by simp), List.filter_cons_of_pos (by simp [hkey])] at hhead
      obtain rfl := (List.cons.inj hhead).1
      rw [ih (List.pairwise_cons.mp hx).2 (List.pairwise_cons.mp hy).2]
      intro k
      by_cases hk : key x = k
      · simpa [hk] using h k
      · simpa [hk] using h k

/-- What is kept of a sorted list is what is kept, sorted. -/
theorem filter_sortOn_eq (p : α → Bool) (l : List α) :
    (sortOn key l).filter p = sortOn key (l.filter p) := by
  have hcomm (k : Int) (xs : List α) : (xs.filter p).filter (fun a => key a == k) =
      (xs.filter fun a => key a == k).filter p := by
    simp only [List.filter_filter, Bool.and_comm]
  refine eq_of_filter_eq ((pairwise_sortOn key l).filter p) (pairwise_sortOn key _) fun k => ?_
  rw [hcomm, filter_sortOn, filter_sortOn, hcomm]

/-- The members with some of the keys, gathered. -/
theorem filter_flatMap_key {key' : β → Int} {f : α → List β} {l : List α}
    (h : ∀ a ∈ l, ∀ b ∈ f a, key' b = key a) (wanted : Int → Bool) :
    (l.flatMap f).filter (fun b => wanted (key' b)) =
      (l.filter fun a => wanted (key a)).flatMap f := by
  induction l with
  | nil => rfl
  | cons a l ih =>
    have ih := ih fun c hc => h c (List.mem_cons_of_mem a hc)
    have ha := h a List.mem_cons_self
    rw [List.flatMap_cons, List.filter_append, ih, List.filter_cons]
    by_cases hk : wanted (key a) = true
    · rw [List.filter_eq_self.mpr fun b hb => by rw [ha b hb, hk], if_pos hk, List.flatMap_cons]
    · rw [List.filter_eq_nil_iff.mpr fun b hb => by rw [ha b hb]; exact hk, if_neg hk,
        List.nil_append]

theorem sortOn_flatMap {key' : β → Int} {f : α → List β} {l : List α}
    (h : ∀ a ∈ l, ∀ b ∈ f a, key' b = key a) :
    sortOn key' (l.flatMap f) = (sortOn key l).flatMap f := by
  have h' : ∀ a ∈ sortOn key l, ∀ b ∈ f a, key' b = key a := fun a ha =>
    h a ((sortOn_perm key l).mem_iff.mp ha)
  refine eq_of_filter_eq (pairwise_sortOn key' _) ?_ fun k => ?_
  · rw [List.pairwise_flatMap]
    constructor
    · intro a ha
      apply List.pairwise_of_forall_mem_list
      intro b hb c hc
      exact Int.le_of_eq ((h' a ha b hb).trans (h' a ha c hc).symm)
    · refine (pairwise_sortOn key l).imp_of_mem fun {a b} ha hb hle x hx y hy => ?_
      rw [h' a ha x hx, h' b hb y hy]
      exact hle
  · rw [filter_sortOn, filter_flatMap_key h (· == k), filter_flatMap_key h' (· == k),
      filter_sortOn]

end UiConformance
