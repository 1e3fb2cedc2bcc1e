import UiConformance.Status

/-!
# Severity of aggregates

An aggregate is the least status that is as severe as everything it gathers; unless it gathers
nothing, it is one of what it gathers. Aggregates are compared by what bounds them.
-/

namespace UiConformance.ScanStatus

variable {a b c s : ScanStatus} {ss ts : List ScanStatus}

theorem le_refl (a : ScanStatus) : a ≤ a := Nat.le_refl a.ordinal

theorem le_trans (h1 : a ≤ b) (h2 : b ≤ c) : a ≤ c := Nat.le_trans h1 h2

theorem le_antisymm (h1 : a ≤ b) (h2 : b ≤ a) : a = b := ordinal_inj.mp (Nat.le_antisymm h1 h2)

theorem noResult_le (a : ScanStatus) : noResult ≤ a := Nat.zero_le a.ordinal

theorem max_le_iff : max a b ≤ c ↔ a ≤ c ∧ b ≤ c := by
  show (max a b).ordinal ≤ c.ordinal ↔ a.ordinal ≤ c.ordinal ∧ b.ordinal ≤ c.ordinal
  rw [ordinal_max]
  exact Nat.max_le

theorem max_eq (a b : ScanStatus) : max a b = a ∨ max a b = b := by
  show (if a ≤ b then b else a) = a ∨ (if a ≤ b then b else a) = b
  split
  · exact .inr rfl
  · exact .inl rfl

/-- Statuses with the same upper bounds are equal. -/
theorem eq_of_forall_le_iff (h : ∀ c, a ≤ c ↔ b ≤ c) : a = b :=
  le_antisymm ((h b).mpr (le_refl b)) ((h a).mp (le_refl a))

theorem foldl_max_le_iff : ss.foldl max a ≤ b ↔ a ≤ b ∧ ∀ s ∈ ss, s ≤ b := by
  induction ss generalizing a with
  | nil => simp
  | cons s ss ih => rw [List.foldl_cons, ih, max_le_iff, List.forall_mem_cons, and_assoc]

theorem foldl_max_mem : ss.foldl max a ∈ a :: ss := by
  induction ss generalizing a with
  | nil => exact List.mem_cons_self
  | cons s ss ih =>
    rw [List.foldl_cons]
    rcases List.mem_cons.mp (ih (a := max a s)) with h | h
    · rw [h]
      rcases max_eq a s with h | h <;> simp [h]
    · exact List.mem_cons_of_mem a (List.mem_cons_of_mem s h)

theorem aggregate_le_iff : aggregate ss ≤ b ↔ ∀ s ∈ ss, s ≤ b := by
  rw [aggregate, foldl_max_le_iff]
  exact and_iff_right (noResult_le b)

theorem le_aggregate (h : s ∈ ss) : s ≤ aggregate ss :=
  aggregate_le_iff.mp (le_refl (aggregate ss)) s h

theorem aggregate_mem (h : ss ≠ []) : aggregate ss ∈ ss := by
  rcases List.mem_cons.mp (@foldl_max_mem noResult ss) with he | hm
  · -- The least status is an aggregate of itself only.
    obtain ⟨s, hs⟩ := List.exists_mem_of_ne_nil ss h
    have hle : s ≤ noResult := he ▸ le_aggregate hs
    have : s = noResult := le_antisymm hle (noResult_le s)
    rw [aggregate, he, ← this]
    exact hs
  · exact hm

end UiConformance.ScanStatus
