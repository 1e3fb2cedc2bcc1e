import UiConformance.Text.Numeral

/-!
# Budget counter

Counts the elements that one walk may visit. `count` is what was admitted and never passes the
bound; `attempts` also records what was refused and stops at the largest 32-bit word. The bound
lies below that word, so that an attempt beyond the bound can always be seen.
-/

namespace UiConformance

inductive CounterError
  | invalidBound (bound : Int)
  | negativeCount (n : Int)
  deriving DecidableEq, Repr

def CounterError.message : CounterError → String
  | invalidBound n => s!"Upper bound must be between 1 and {Text.int32Max} (exclusive), got {n}"
  | negativeCount n => s!"Cannot add a negative count: {n}"

structure Counter where
  bound : Nat
  attempts : Nat := 0
  count : Nat := 0
  deriving DecidableEq, Repr

namespace Counter

/-- The bounds that a counter accepts. -/
def acceptsBound (bound : Int) : Bool := 1 ≤ bound && bound < Text.int32Max

def ofBound (bound : Int) : Except CounterError Counter :=
  if acceptsBound bound then .ok { bound := bound.toNat } else .error (.invalidBound bound)

/-- Addition that stops at the largest 32-bit word. -/
def addCapped (m n : Nat) : Nat := min (m + n) Text.int32Max

def remaining (c : Counter) : Nat := c.bound - c.count

/-- More was asked for than the bound allows. -/
def exceeded (c : Counter) : Bool := c.bound < c.attempts

/-- Asks for one more element: whether it was admitted, and the counter after. -/
def tryIncrement (c : Counter) : Bool × Counter :=
  let c := { c with attempts := addCapped c.attempts 1 }
  if c.count < c.bound then (true, { c with count := c.count + 1 }) else (false, c)

/-- Asks for several elements at once, which are admitted as far as the bound allows. It is refused
only where nothing was left. -/
def tryAdd (c : Counter) (n : Int) : Except CounterError (Bool × Counter) :=
  if n < 0 then .error (.negativeCount n)
  else
    let c := { c with attempts := addCapped c.attempts n.toNat }
    if c.count < c.bound then .ok (true, { c with count := min (addCapped c.count n.toNat) c.bound })
    else .ok (false, c)

def reset (c : Counter) : Counter := { c with attempts := 0, count := 0 }

/-! ## Facts -/

@[simp] theorem bound_tryIncrement (c : Counter) : c.tryIncrement.2.bound = c.bound := by
  simp only [tryIncrement]
  split <;> rfl

theorem remaining_tryIncrement {c : Counter} (h : c.tryIncrement.1 = true) :
    c.tryIncrement.2.remaining + 1 = c.remaining := by
  by_cases hc : c.count < c.bound
  · simp only [tryIncrement, if_pos hc, remaining]
    omega
  · simp [tryIncrement, hc] at h

theorem remaining_tryIncrement_of_refused {c : Counter} (h : c.tryIncrement.1 = false) :
    c.tryIncrement.2.remaining = c.remaining ∧ c.remaining = 0 := by
  by_cases hc : c.count < c.bound
  · simp [tryIncrement, hc] at h
  · exact ⟨by simp only [tryIncrement, if_neg hc, remaining], Nat.sub_eq_zero_of_le (Nat.le_of_not_lt hc)⟩

end Counter

end UiConformance
