import UiConformance.Counter

/-!
# Spending a budget

`c.spend n` is the counter after `n` more elements were asked for one by one. Whoever asks and
whether the request is admitted makes no difference to the counter, so a phase of a walk changes it
by the number of its requests alone.

`c.Tracks total` says that `total` elements were asked for since the last reset. It determines the
counter: `attempts` is the total up to the largest word and `count` the total up to the bound.
-/

namespace UiConformance.Counter

variable {c : Counter} {total : Nat}

/-! ## Asking one by one -/

theorem tryIncrement_of_lt (h : c.count < c.bound) :
    c.tryIncrement = (true, ⟨c.bound, addCapped c.attempts 1, c.count + 1⟩) := if_pos h

theorem tryIncrement_of_ge (h : c.bound ≤ c.count) :
    c.tryIncrement = (false, ⟨c.bound, addCapped c.attempts 1, c.count⟩) :=
  if_neg (Nat.not_lt.mpr h)

/-- A request is admitted exactly where something remains. -/
theorem tryIncrement_fst (c : Counter) : c.tryIncrement.1 = decide (0 < c.remaining) := by
  unfold remaining
  rcases Nat.lt_or_ge c.count c.bound with h | h
  · rw [tryIncrement_of_lt h]
    exact (decide_eq_true (by omega)).symm
  · rw [tryIncrement_of_ge h]
    exact (decide_eq_false (by omega)).symm

theorem count_tryIncrement (c : Counter) :
    c.tryIncrement.2.count = c.count + min 1 c.remaining := by
  unfold remaining
  rcases Nat.lt_or_ge c.count c.bound with h | h
  · rw [tryIncrement_of_lt h]; simp only; omega
  · rw [tryIncrement_of_ge h]; simp only; omega

theorem attempts_tryIncrement (c : Counter) :
    c.tryIncrement.2.attempts = addCapped c.attempts 1 := by
  rcases Nat.lt_or_ge c.count c.bound with h | h
  · rw [tryIncrement_of_lt h]
  · rw [tryIncrement_of_ge h]

/-- The counter after so many single requests. -/
def spend (c : Counter) : Nat → Counter
  | 0 => c
  | n + 1 => c.tryIncrement.2.spend n

theorem spend_add (c : Counter) (m n : Nat) : c.spend (m + n) = (c.spend m).spend n := by
  induction m generalizing c with
  | zero => rw [Nat.zero_add]; rfl
  | succ m ih => rw [Nat.add_right_comm]; exact ih c.tryIncrement.2

@[simp] theorem bound_spend (c : Counter) (n : Nat) : (c.spend n).bound = c.bound := by
  induction n generalizing c with
  | zero => rfl
  | succ n ih => exact (ih _).trans (bound_tryIncrement c)

/-- What was asked for is admitted as far as the budget goes. -/
theorem count_spend (c : Counter) (n : Nat) : (c.spend n).count = c.count + min n c.remaining := by
  induction n generalizing c with
  | zero => simp [spend]
  | succ n ih =>
    have h1 := count_tryIncrement c
    have hb := bound_tryIncrement c
    rw [spend, ih]
    unfold remaining at h1 ⊢
    omega

theorem remaining_spend (c : Counter) (n : Nat) : (c.spend n).remaining = c.remaining - n := by
  have h := count_spend c n
  have hb := bound_spend c n
  unfold remaining at h ⊢
  omega

/-! ## Totals -/

/-- So many elements were asked for since the last reset. -/
structure Tracks (c : Counter) (total : Nat) : Prop where
  bound_lt : c.bound < Text.int32Max
  attempts : c.attempts = min total Text.int32Max
  count : c.count = min total c.bound

theorem ofBound_eq_ok_iff {b : Int} :
    ofBound b = .ok c ↔ (1 ≤ b ∧ b < Text.int32Max) ∧ c = { bound := b.toNat } := by
  have ha : acceptsBound b = true ↔ 1 ≤ b ∧ b < Text.int32Max := by simp [acceptsBound]
  rw [← ha]
  unfold ofBound
  split
  · next h => exact ⟨fun e => ⟨h, (Except.ok.inj e).symm⟩, fun e => by rw [e.2]⟩
  · next h => exact ⟨(nomatch ·), fun e => absurd e.1 h⟩

theorem bound_ofBound {b : Int} (h : ofBound b = .ok c) : (c.bound : Int) = b := by
  obtain ⟨⟨hpos, -⟩, rfl⟩ := ofBound_eq_ok_iff.mp h
  exact Int.toNat_of_nonneg (by omega)

theorem tracks_ofBound {b : Int} (h : ofBound b = .ok c) : c.Tracks 0 := by
  obtain ⟨⟨h1, h2⟩, rfl⟩ := ofBound_eq_ok_iff.mp h
  refine ⟨?_, by simp, by simp⟩
  show b.toNat < Text.int32Max
  omega

theorem Tracks.tryIncrement (h : c.Tracks total) : c.tryIncrement.2.Tracks (total + 1) := by
  obtain ⟨hb, ha, hc⟩ := h
  refine ⟨by rwa [bound_tryIncrement], ?_, ?_⟩
  · rw [attempts_tryIncrement, addCapped]
    omega
  · rw [count_tryIncrement, bound_tryIncrement, remaining]
    omega

theorem Tracks.spend (h : c.Tracks total) (n : Nat) : (c.spend n).Tracks (total + n) := by
  induction n generalizing c total with
  | zero => exact h
  | succ n ih =>
    have h' := ih h.tryIncrement
    rwa [show total + 1 + n = total + (n + 1) by omega] at h'

theorem Tracks.exceeded_iff (h : c.Tracks total) : c.exceeded = true ↔ c.bound < total := by
  obtain ⟨hb, ha, hc⟩ := h
  rw [exceeded, decide_eq_true_iff, ha]
  omega

theorem Tracks.remaining_eq (h : c.Tracks total) : c.remaining = c.bound - total := by
  obtain ⟨hb, ha, hc⟩ := h
  unfold remaining
  omega

/-! ## Asking for several at once -/

/-- A natural number of elements is never an error. -/
theorem tryAdd_natCast (c : Counter) (n : Nat) :
    c.tryAdd n = .ok (decide (c.count < c.bound), ⟨c.bound, addCapped c.attempts n,
      if c.count < c.bound then min (addCapped c.count n) c.bound else c.count⟩) := by
  unfold tryAdd
  rw [if_neg (by omega)]
  by_cases h : c.count < c.bound
  · simp [h]
  · simp [h]

/-- Several elements asked for at once weigh as much as one by one. -/
theorem Tracks.tryAdd (h : c.Tracks total) {n : Nat} {counted : Bool} {c' : Counter}
    (e : c.tryAdd n = .ok (counted, c')) : c'.bound = c.bound ∧ c'.Tracks (total + n) := by
  obtain ⟨hb, ha, hc⟩ := h
  rw [tryAdd_natCast] at e
  obtain ⟨-, rfl⟩ := Prod.mk.inj (Except.ok.inj e)
  refine ⟨rfl, hb, ?_, ?_⟩
  · simp only [addCapped]
    omega
  · simp only [addCapped]
    split <;> omega

end UiConformance.Counter
