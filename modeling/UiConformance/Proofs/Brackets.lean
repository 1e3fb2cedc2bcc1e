import Mathlib.Data.List.Basic

/-!
# Bracketed text

A text is nested when its round brackets match. A character is sealed in a text when it occurs
between brackets only; what is put into brackets seals every character. A text with a joint on the
outside comes apart in one way only at the last such place: where a character joins two parts and
the second part seals it, the text determines both parts.
-/

namespace UiConformance.Text

variable {s t s' t' : List Char} {c : Char}

/-- Opening brackets without the closing ones. -/
def balance (s : List Char) : Int := s.count '(' - s.count ')'

@[simp] theorem balance_append (s t : List Char) : balance (s ++ t) = balance s + balance t := by
  simp only [balance, List.count_append]
  omega

theorem balance_cons (c : Char) (s : List Char) : balance (c :: s) = balance [c] + balance s :=
  balance_append [c] s

theorem balance_eq_zero (h1 : '(' ∉ s) (h2 : ')' ∉ s) : balance s = 0 := by
  rw [balance, List.count_eq_zero.mpr h1, List.count_eq_zero.mpr h2]
  rfl

def bracketed (s : List Char) : List Char := '(' :: (s ++ [')'])

/-- Every bracket is closed, and none before it is opened. -/
structure Nested (s : List Char) : Prop where
  closed : balance s = 0
  nonneg : ∀ x y, s = x ++ y → 0 ≤ balance x

/-- The character occurs between brackets only. -/
def Sealed (c : Char) (s : List Char) : Prop := ∀ x y, s = x ++ c :: y → 0 < balance x

/-! ## Nesting -/

theorem nested_of_not_mem (h1 : '(' ∉ s) (h2 : ')' ∉ s) : Nested s where
  closed := balance_eq_zero h1 h2
  nonneg := by
    intro x y h
    subst h
    exact Int.le_of_eq (balance_eq_zero (fun hm => h1 (List.mem_append_left y hm))
      (fun hm => h2 (List.mem_append_left y hm))).symm

theorem Nested.append (hs : Nested s) (ht : Nested t) : Nested (s ++ t) where
  closed := by rw [balance_append, hs.closed, ht.closed]; rfl
  nonneg := by
    intro x y h
    rcases List.append_eq_append_iff.mp h with ⟨a, rfl, ha⟩ | ⟨b, hb, -⟩
    · have := ht.nonneg a y ha
      rw [balance_append, hs.closed]
      omega
    · exact hs.nonneg x b hb

theorem Nested.nonneg_inside (hs : Nested s) {x y : List Char} (h : s ++ [')'] = x ++ y) :
    0 ≤ balance x + 1 := by
  rcases List.append_eq_append_iff.mp h with ⟨a, rfl, ha⟩ | ⟨b, hb, -⟩
  · rcases List.append_eq_singleton_iff.mp ha.symm with ⟨rfl, -⟩ | ⟨rfl, -⟩
    · simp [hs.closed]
    · rw [balance_append, hs.closed]
      exact Int.le_refl 0
  · have := hs.nonneg x b hb
    omega

theorem Nested.bracketed (hs : Nested s) : Nested (bracketed s) where
  closed := by
    rw [Text.bracketed, balance_cons, balance_append, hs.closed]
    rfl
  nonneg := by
    intro x y h
    cases x with
    | nil => exact Int.le_refl 0
    | cons d x =>
      obtain ⟨rfl, hx⟩ := List.cons.inj h
      have := hs.nonneg_inside hx
      rw [balance_cons, show balance ['('] = 1 from rfl]
      omega

/-! ## Sealed characters -/

theorem sealed_of_not_mem (h : c ∉ s) : Sealed c s := by
  rintro x y rfl
  exact absurd (List.mem_append_right x List.mem_cons_self) h

theorem Sealed.append (hs : Sealed c s) (hb : balance s = 0) (ht : Sealed c t) :
    Sealed c (s ++ t) := by
  intro x y h
  rcases List.append_eq_append_iff.mp h with ⟨a, rfl, ha⟩ | ⟨b, hx, hb'⟩
  · have := ht a y ha
    rw [balance_append, hb]
    omega
  · cases b with
    | nil =>
      have := ht [] y hb'.symm
      exact absurd this (Int.lt_irrefl 0)
    | cons d b =>
      obtain ⟨rfl, -⟩ := List.cons.inj hb'
      exact hs x b hx

theorem Sealed.cons {d : Char} (hd : c ≠ d) (hb : balance [d] = 0) (hs : Sealed c s) :
    Sealed c (d :: s) :=
  Sealed.append (sealed_of_not_mem (by simpa using hd)) hb hs

/-- Brackets seal every character but themselves. -/
theorem Nested.sealed_bracketed (hs : Nested s) (hc : balance [c] = 0) :
    Sealed c (Text.bracketed s) := by
  intro x y h
  cases x with
  | nil =>
    obtain ⟨rfl, -⟩ := List.cons.inj h
    cases hc
  | cons d x =>
    obtain ⟨rfl, hx⟩ := List.cons.inj h
    -- A cut before the closing bracket leaves the opening one unmatched.
    rw [balance_cons, show balance ['('] = 1 from rfl]
    rcases List.append_eq_append_iff.mp hx with ⟨a, rfl, ha⟩ | ⟨b, hb, -⟩
    · rcases List.append_eq_singleton_iff.mp ha.symm with ⟨rfl, -⟩ | ⟨-, hnil⟩
      · simp [hs.closed]
      · cases hnil
    · have := hs.nonneg x b hb
      omega

theorem not_sealed (hs : balance s = 0) : ¬ Sealed c (s ++ c :: t) := by
  intro h
  have := h s t rfl
  omega

/-- No further occurrence on the outside fits between two equal characters. -/
theorem Sealed.eq_nil (hs : Sealed c s) (hc : balance [c] = 0) (hb : balance s = balance t)
    {a : List Char} (h : c :: s = a ++ c :: t) : a = [] := by
  cases a with
  | nil => rfl
  | cons d a =>
    obtain ⟨rfl, hsa⟩ := List.cons.inj h
    have := hs a t hsa
    rw [hsa, List.append_eq, balance_append, balance_cons, hc] at hb
    omega

/-- A joint whose second part seals it divides a text in one way. -/
theorem eq_of_sealed (h : s ++ c :: t = s' ++ c :: t') (hc : balance [c] = 0)
    (hb : balance t = balance t') (ht : Sealed c t) (ht' : Sealed c t') : s = s' ∧ t = t' := by
  rcases List.append_eq_append_iff.mp h with ⟨a, rfl, ha⟩ | ⟨a, rfl, ha⟩
  · obtain rfl := ht.eq_nil hc hb ha
    exact ⟨(List.append_nil s).symm, List.tail_eq_of_cons_eq ha⟩
  · obtain rfl := ht'.eq_nil hc hb.symm ha
    exact ⟨List.append_nil s', (List.tail_eq_of_cons_eq ha).symm⟩

end UiConformance.Text
