import Mathlib.Tactic.Tauto
import UiConformance.Rose

/-!
# The first failure

A fallible map over a list, or over the nodes of a tree in document order, fails as its first
failing value does, and does not look at what comes after. Where no value fails, the results stand
in the places of the values.
-/

namespace UiConformance

variable {α β γ δ ε : Type} {f : α → Except ε β} {x : α} {xs : List α} {ys : List β} {e : ε}

/-- On the first of the values on which the map fails it fails with `e`. -/
def FirstFailure (f : α → Except ε β) (xs : List α) (e : ε) : Prop :=
  ∃ before a after, xs = before ++ a :: after ∧ (∀ b ∈ before, ∃ c, f b = .ok c) ∧ f a = .error e

theorem not_firstFailure_nil : ¬FirstFailure f [] e := by
  rintro ⟨before, a, after, h, -⟩
  exact List.append_ne_nil_of_right_ne_nil before (List.cons_ne_nil a after) h.symm

theorem firstFailure_cons :
    FirstFailure f (x :: xs) e ↔ f x = .error e ∨ (∃ c, f x = .ok c) ∧ FirstFailure f xs e := by
  constructor
  · rintro ⟨before, a, after, h, hbefore, ha⟩
    rcases List.cons_eq_append_iff.mp h with ⟨rfl, h⟩ | ⟨tail, rfl, rfl⟩
    · obtain ⟨rfl, -⟩ := List.cons.inj h
      exact .inl ha
    · rw [List.forall_mem_cons] at hbefore
      exact .inr ⟨hbefore.1, tail, a, after, rfl, hbefore.2, ha⟩
  · rintro (hx | ⟨hx, before, a, after, rfl, hbefore, ha⟩)
    · exact ⟨[], x, xs, rfl, nofun, hx⟩
    · exact ⟨x :: before, a, after, rfl, List.forall_mem_cons.mpr ⟨hx, hbefore⟩, ha⟩

theorem firstFailure_append {ys : List α} : FirstFailure f (xs ++ ys) e ↔
    FirstFailure f xs e ∨ (∀ x ∈ xs, ∃ c, f x = .ok c) ∧ FirstFailure f ys e := by
  induction xs with
  | nil => simp [not_firstFailure_nil]
  | cons x xs ih =>
    rw [List.cons_append, firstFailure_cons, firstFailure_cons, ih, List.forall_mem_cons]
    tauto

/-! ## Lists -/

theorem mapM_eq_error_iff : xs.mapM f = .error e ↔ FirstFailure f xs e := by
  induction xs with
  | nil => exact ⟨nofun, fun h => absurd h not_firstFailure_nil⟩
  | cons x xs ih =>
    rw [firstFailure_cons, List.mapM_cons]
    cases hx : f x with
    | error e' => simp [bind, Except.bind]
    | ok b =>
      rw [← ih]
      cases xs.mapM f with
      | error e' => simp [bind, Except.bind]
      | ok bs => simp [bind, Except.bind, pure, Except.pure]

theorem mapM_eq_ok_iff : xs.mapM f = .ok ys ↔ xs.map f = ys.map .ok := by
  induction xs generalizing ys with
  | nil => cases ys <;> simp [pure, Except.pure]
  | cons x xs ih =>
    rw [List.mapM_cons]
    cases hx : f x with
    | error e' => cases ys <;> simp [bind, Except.bind, hx]
    | ok b =>
      cases hxs : xs.mapM f with
      | error e' => cases ys <;> simp [bind, Except.bind, hx, ← ih, hxs]
      | ok bs => cases ys <;> simp [bind, Except.bind, pure, Except.pure, hx, ← ih, hxs]

theorem exists_mapM_iff : (∃ ys, xs.mapM f = .ok ys) ↔ ∀ x ∈ xs, ∃ b, f x = .ok b := by
  constructor
  · rintro ⟨ys, h⟩ x hx
    have hmem : f x ∈ ys.map .ok := mapM_eq_ok_iff.mp h ▸ List.mem_map_of_mem hx
    obtain ⟨b, -, hb⟩ := List.mem_map.mp hmem
    exact ⟨b, hb.symm⟩
  · intro h
    cases hxs : xs.mapM f with
    | ok ys => exact ⟨ys, rfl⟩
    | error e =>
      obtain ⟨before, a, after, rfl, -, ha⟩ := mapM_eq_error_iff.mp hxs
      obtain ⟨b, hb⟩ := h a (List.mem_append_right _ List.mem_cons_self)
      rw [ha] at hb
      cases hb

/-- What fails as the map does succeeds when the map succeeds on each value. -/
theorem exists_ok_iff {y : Except ε γ} (h : ∀ e, y = .error e ↔ FirstFailure f xs e) :
    (∃ c, y = .ok c) ↔ ∀ x ∈ xs, ∃ b, f x = .ok b := by
  rw [← exists_mapM_iff]
  simp only [← mapM_eq_error_iff] at h
  cases y with
  | error e => simp [(h e).mp rfl]
  | ok c =>
    cases hxs : xs.mapM f with
    | error e => exact absurd ((h e).mpr hxs) nofun
    | ok ys => simp

/-- What fails on a value as a map over a list does, fails on values as the map over their lists
does. -/
theorem firstFailure_flatMap {g : α → List γ} {f' : γ → Except ε δ}
    (h : ∀ x e, f x = .error e ↔ FirstFailure f' (g x) e) :
    FirstFailure f xs e ↔ FirstFailure f' (xs.flatMap g) e := by
  induction xs with
  | nil => exact iff_of_false not_firstFailure_nil not_firstFailure_nil
  | cons x xs ih =>
    rw [List.flatMap_cons, firstFailure_append, firstFailure_cons, ih, h, exists_ok_iff (h x)]

/-! ## Trees -/

namespace Rose

mutual

/-- A map over a tree meets the values in document order. -/
theorem map_preorder_traverse (f : α → Except ε β) : (t : Rose α) →
    (t.traverse f).map preorder = t.preorder.mapM f
  | node a ts => by
    rw [traverse, preorder, List.mapM_cons, ← map_preorder_traverseForest f ts]
    cases f a with
    | error e => rfl
    | ok b => cases traverseForest f ts <;> rfl

theorem map_preorder_traverseForest (f : α → Except ε β) : (ts : List (Rose α)) →
    (traverseForest f ts).map preorderForest = (preorderForest ts).mapM f
  | [] => rfl
  | t :: ts => by
    rw [traverseForest, preorderForest, List.mapM_append, ← map_preorder_traverse f t,
      ← map_preorder_traverseForest f ts]
    cases t.traverse f with
    | error e => rfl
    | ok u => cases traverseForest f ts <;> rfl

end

variable {t : Rose α} {u : Rose β}

theorem traverse_eq_error_iff : t.traverse f = .error e ↔ FirstFailure f t.preorder e := by
  rw [← mapM_eq_error_iff, ← map_preorder_traverse]
  cases t.traverse f <;> simp [Except.map]

/-- The results stand in the places of the values. -/
theorem map_preorder_of_traverse (h : t.traverse f = .ok u) :
    t.preorder.map f = u.preorder.map .ok := by
  rw [← mapM_eq_ok_iff, ← map_preorder_traverse, h]
  rfl

end Rose

end UiConformance
