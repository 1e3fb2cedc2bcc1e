import UiConformance.Proofs.Budget

/-!
# Histories of requests

A counter is asked for one element, for several, or to start again. What it was asked for since it
last started is a plain sum, `Request.total`, and this sum alone settles what the counter holds and
how it answers, after any history. Each of its two numbers is the sum, cut off at a cap of its own;
the caps are consistent because every bound lies below the largest 32-bit word.
-/

namespace UiConformance.Counter

inductive Request
  | one
  | several (n : Int)
  | reset
  deriving DecidableEq, Repr

namespace Request

/-- What was asked for since the last reset, with one more request. A negative number is an error
and asks for nothing. -/
def addTo (total : Nat) : Request → Nat
  | one => total + 1
  | several n => total + n.toNat
  | reset => 0

/-- What a history asks for since its last reset. -/
def total (rs : List Request) : Nat := rs.foldl addTo 0

end Request

/-- The answer to a request, which for elements is whether they were admitted, and the counter
after it. A request that is an error leaves the counter alone. -/
def serve (c : Counter) : Request → Except CounterError (Option Bool) × Counter
  | .one => (.ok (some c.tryIncrement.1), c.tryIncrement.2)
  | .several n =>
    match c.tryAdd n with
    | .error e => (.error e, c)
    | .ok (admitted, c) => (.ok (some admitted), c)
  | .reset => (.ok none, c.reset)

def after (c : Counter) (rs : List Request) : Counter := rs.foldl (fun c r => (c.serve r).2) c

variable {c : Counter} {total : Nat} {n : Int}

/-! ## One request -/

theorem serve_one_fst (c : Counter) :
    (c.serve .one).1 = .ok (some (decide (0 < c.remaining))) := by
  rw [serve, tryIncrement_fst]

theorem serve_several_of_neg (hn : n < 0) :
    c.serve (.several n) = (.error (.negativeCount n), c) := by
  rw [serve, tryAdd, if_pos hn]

theorem serve_several_natCast (c : Counter) (n : Nat) :
    c.serve (.several n) = (.ok (some (decide (c.count < c.bound))),
      ⟨c.bound, addCapped c.attempts n,
        if c.count < c.bound then min (addCapped c.count n) c.bound else c.count⟩) := by
  rw [serve, tryAdd_natCast]

@[simp] theorem bound_serve (c : Counter) (r : Request) : (c.serve r).2.bound = c.bound := by
  cases r with
  | one => exact bound_tryIncrement c
  | several n =>
    rcases Int.lt_or_le n 0 with hn | hn
    · rw [serve_several_of_neg hn]
    · obtain ⟨m, rfl⟩ := Int.eq_ofNat_of_zero_le hn
      rw [serve_several_natCast]
  | reset => rfl

theorem Tracks.reset (h : c.Tracks total) : c.reset.Tracks 0 :=
  ⟨h.bound_lt, (Nat.zero_min _).symm, (Nat.zero_min _).symm⟩

/-- A request changes the counter as it changes the total. -/
theorem Tracks.serve (h : c.Tracks total) (r : Request) : (c.serve r).2.Tracks (r.addTo total) := by
  cases r with
  | one => exact h.tryIncrement
  | several n =>
    rcases Int.lt_or_le n 0 with hn | hn
    · rw [serve_several_of_neg hn, Request.addTo, Int.toNat_of_nonpos (Int.le_of_lt hn)]
      exact h
    · obtain ⟨m, rfl⟩ := Int.eq_ofNat_of_zero_le hn
      rw [serve_several_natCast, Request.addTo, Int.toNat_natCast]
      exact (h.tryAdd (tryAdd_natCast c m)).2
  | reset => exact h.reset

/-! ## Histories -/

theorem bound_after (c : Counter) (rs : List Request) : (c.after rs).bound = c.bound := by
  induction rs generalizing c with
  | nil => rfl
  | cons r rs ih => exact (ih _).trans (bound_serve c r)

theorem Tracks.after (h : c.Tracks total) (rs : List Request) :
    (c.after rs).Tracks (rs.foldl Request.addTo total) := by
  induction rs generalizing c total with
  | nil => exact h
  | cons r rs ih => exact ih (h.serve r)

/-- What a counter with a bound holds and answers after so many elements were asked for. -/
structure Accounts (c : Counter) (bound : Int) (total : Nat) : Prop where
  bound_eq : (c.bound : Int) = bound
  attempts_eq : c.attempts = min total Text.int32Max
  count_eq : (c.count : Int) = min (total : Int) bound
  exceeded_iff : c.exceeded = true ↔ bound < total
  one : (c.serve .one).1 = .ok (some (decide (total < bound)))
  several : ∀ n ≥ 0, (c.serve (.several n)).1 = .ok (some (decide (total < bound)))
  negative : ∀ n < 0, c.serve (.several n) = (.error (.negativeCount n), c)
  /-- The only sum that is not capped stays a 32-bit word. -/
  increment_le : (c.serve .one).1 = .ok (some true) → c.count + 1 ≤ Text.int32Max

theorem Tracks.accounts (h : c.Tracks total) : c.Accounts c.bound total where
  bound_eq := rfl
  attempts_eq := h.attempts
  count_eq := by
    rw [h.count]
    omega
  exceeded_iff := by
    rw [h.exceeded_iff]
    omega
  one := by
    have hadmitted : 0 < c.remaining ↔ (total : Int) < c.bound := by
      rw [h.remaining_eq]
      omega
    rw [serve_one_fst]
    simp only [hadmitted]
  several n hn := by
    obtain ⟨m, rfl⟩ := Int.eq_ofNat_of_zero_le hn
    have hadmitted : c.count < c.bound ↔ (total : Int) < c.bound := by
      rw [h.count]
      omega
    rw [serve_several_natCast]
    simp only [hadmitted]
  negative _ hn := serve_several_of_neg hn
  increment_le ha := by
    simp only [serve_one_fst, Except.ok.injEq, Option.some.injEq, decide_eq_true_eq] at ha
    have hlt := h.bound_lt
    unfold remaining at ha
    omega

/-- After any history a fresh counter accounts for what was asked for since the last reset. -/
theorem accounts_after {b : Int} (h : ofBound b = .ok c) (rs : List Request) :
    (c.after rs).Accounts b (Request.total rs) := by
  have haccounts := ((tracks_ofBound h).after rs).accounts
  rwa [bound_after, bound_ofBound h] at haccounts

/-- Requests past the largest word, after which the bound still tells that they were too many. -/
theorem accounts_after_largest :
    ofBound 2147483646 = .ok ⟨2147483646, 0, 0⟩ ∧
      ((⟨2147483646, 0, 0⟩ : Counter).after
        [.one, .reset, .several 2147483645, .several (-1), .one, .one, .several 7]).Accounts
          2147483646 2147483654 :=
  ⟨rfl, accounts_after (c := ⟨2147483646, 0, 0⟩) rfl _⟩

end UiConformance.Counter
