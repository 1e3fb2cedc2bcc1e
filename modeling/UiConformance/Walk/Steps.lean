/-!
# Runs of a step function

A run repeats a step until there is none left to take. The number of steps allowed is computed from
a measure of the start that every step lowers, so a run always ends because no step is left.
-/

namespace UiConformance

variable {σ : Type}

/-- Takes steps until there is none, at most the given number. -/
def runSteps (step? : σ → Option σ) : Nat → σ → σ
  | 0, s => s
  | n + 1, s =>
    match step? s with
    | none => s
    | some t => runSteps step? n t

/-- Where every step lowers a measure, as many steps as the measure allows are enough. -/
theorem step?_runSteps (step? : σ → Option σ) (measure : σ → Nat)
    (lowers : ∀ s t, step? s = some t → measure t < measure s) :
    ∀ {n : Nat} {s : σ}, measure s ≤ n → step? (runSteps step? n s) = none
  | 0, s, h => by
    rw [runSteps]
    match hs : step? s with
    | none => rfl
    | some t => exact absurd (lowers s t hs) (by omega)
  | n + 1, s, h => by
    rw [runSteps]
    match hs : step? s with
    | none => exact hs
    | some t => exact step?_runSteps step? measure lowers (by have := lowers s t hs; omega)

/-- What every step keeps, a run keeps. -/
theorem runSteps_keeps {step? : σ → Option σ} {p : σ → Prop}
    (keeps : ∀ s t, step? s = some t → p s → p t) :
    ∀ (n : Nat) {s : σ}, p s → p (runSteps step? n s)
  | 0, _, h => h
  | n + 1, s, h => by
    rw [runSteps]
    match hs : step? s with
    | none => exact h
    | some t => exact runSteps_keeps keeps n (keeps s t hs h)

end UiConformance
