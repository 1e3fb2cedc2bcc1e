import Mathlib.Algebra.GroupWithZero.Nat
import UiConformance.Proofs.Budget
import UiConformance.Proofs.Descent

/-!
# Turns of a loop

A run of a step function is a loop with a limit. `turns step? n s` are the states in which its turns
begin. `Loops step? s ss t` is the loop without a limit: it begins its turns in the states `ss` and
stops at `t`, from where there is no step. A run that stops for want of a step is such a loop, so
that a limit which is never reached may be forgotten.

What a loop costs is bounded by a potential that pays for every turn (`sum_turns_le`), and what it
makes of its start depends only on the states that it passes (`runSteps_congr`).
-/

namespace UiConformance

variable {σ : Type}

/-- The states in which the turns of a run begin. -/
def turns (step? : σ → Option σ) : Nat → σ → List σ
  | 0, _ => []
  | n + 1, s =>
    match step? s with
    | none => []
    | some t => s :: turns step? n t

inductive Loops (step? : σ → Option σ) : σ → List σ → σ → Prop
  | stop {s : σ} : step? s = none → Loops step? s [] s
  | turn {s t u : σ} {ss : List σ} : step? s = some t → Loops step? t ss u →
      Loops step? s (s :: ss) u

/-- The loop stops at `t` after at most so many turns. -/
def EndsWithin (step? : σ → Option σ) (most : Nat) (s t : σ) : Prop :=
  ∃ ss, Loops step? s ss t ∧ ss.length ≤ most

variable {step? other? : σ → Option σ} {s t : σ}

theorem turns_none (h : step? s = none) (n : Nat) : turns step? n s = [] := by
  cases n with
  | zero => rfl
  | succ n => rw [turns, h]

theorem turns_some (h : step? s = some t) (n : Nat) :
    turns step? (n + 1) s = s :: turns step? n t := by
  rw [turns, h]

/-! ## Loops and runs -/

theorem loops_turns {n : Nat} (h : step? (runSteps step? n s) = none) :
    Loops step? s (turns step? n s) (runSteps step? n s) := by
  induction n generalizing s with
  | zero => exact .stop h
  | succ n ih =>
    cases hs : step? s with
    | none =>
      rw [turns_none hs, runSteps_none hs]
      exact .stop hs
    | some t =>
      rw [runSteps_some hs] at h
      rw [turns_some hs, runSteps_some hs]
      exact .turn hs (ih h)

theorem exists_endsWithin (step? : σ → Option σ) (p : σ → Prop) (measure : σ → Nat)
    (keeps : ∀ s t, step? s = some t → p s → p t)
    (lowers : ∀ s t, step? s = some t → p s → measure t < measure s) {s : σ} (h : p s) :
    ∃ t, EndsWithin step? (measure s) s t := by
  induction hm : measure s using Nat.strongRecOn generalizing s with
  | _ m ih =>
    cases hs : step? s with
    | none => exact ⟨s, [], .stop hs, Nat.zero_le _⟩
    | some t =>
      have hlt := lowers s t hs h
      obtain ⟨u, ss, hss, hle⟩ := ih (measure t) (hm ▸ hlt) (keeps s t hs h) rfl
      refine ⟨u, s :: ss, .turn hs hss, ?_⟩
      rw [List.length_cons]
      omega

/-! ## What a loop costs -/

/-- Where every turn is paid for from a potential, all turns are. -/
theorem sum_turns_le (step? : σ → Option σ) (cost potential : σ → Nat)
    (pays : ∀ s t, step? s = some t → cost s + potential t ≤ potential s) (n : Nat) (s : σ) :
    ((turns step? n s).map cost).sum + potential (runSteps step? n s) ≤ potential s := by
  induction n generalizing s with
  | zero => exact Nat.le_of_eq (Nat.zero_add _)
  | succ n ih =>
    cases hs : step? s with
    | none =>
      rw [turns_none hs, runSteps_none hs]
      exact Nat.le_of_eq (Nat.zero_add _)
    | some t =>
      have hpaid := pays s t hs
      have hrest := ih t
      rw [turns_some hs, runSteps_some hs, List.map_cons, List.sum_cons]
      omega

theorem length_turns_le (step? : σ → Option σ) (measure : σ → Nat)
    (lowers : ∀ s t, step? s = some t → measure t < measure s) (n : Nat) (s : σ) :
    (turns step? n s).length ≤ measure s := by
  have hsum := sum_turns_le step? (fun _ => 1) measure
    (fun s t hs => by have := lowers s t hs; omega) n s
  rw [List.map_const', List.sum_replicate_nat] at hsum
  omega

/-- A counter that is asked for one more element in some turns has spent their number. -/
theorem counter_runSteps (step? : σ → Option σ) (counter : σ → Counter) (asks : σ → Bool)
    (spends : ∀ s t, step? s = some t →
      counter t = (counter s).spend (if asks s then 1 else 0)) (n : Nat) (s : σ) :
    counter (runSteps step? n s) = (counter s).spend ((turns step? n s).countP asks) := by
  induction n generalizing s with
  | zero => rfl
  | succ n ih =>
    cases hs : step? s with
    | none =>
      rw [turns_none hs, runSteps_none hs]
      rfl
    | some t =>
      rw [turns_some hs, runSteps_some hs, ih, spends s t hs, ← Counter.spend_add,
        List.countP_cons, Nat.add_comm]

/-- A log that every turn adds to has what all turns add to it. -/
theorem log_runSteps {α : Type} (step? : σ → Option σ) (log : σ → Array α) (adds : σ → List α)
    (writes : ∀ s t, step? s = some t → log t = log s ++ (adds s).toArray) (n : Nat) (s : σ) :
    log (runSteps step? n s) = log s ++ ((turns step? n s).flatMap adds).toArray := by
  induction n generalizing s with
  | zero => exact (Array.append_empty).symm
  | succ n ih =>
    cases hs : step? s with
    | none =>
      rw [turns_none hs, runSteps_none hs]
      exact (Array.append_empty).symm
    | some t =>
      rw [turns_some hs, runSteps_some hs, ih, writes s t hs, List.flatMap_cons,
        ← List.append_toArray, Array.append_assoc]

/-- Where the limit of a run covers the measure, the run is a loop that the measure bounds. -/
theorem endsWithin_runSteps (step? : σ → Option σ) (measure : σ → Nat)
    (lowers : ∀ s t, step? s = some t → measure t < measure s) {n : Nat} {s : σ}
    (hn : measure s ≤ n) : EndsWithin step? (measure s) s (runSteps step? n s) :=
  ⟨turns step? n s, loops_turns (step?_runSteps step? measure lowers hn),
    length_turns_le step? measure lowers n s⟩

theorem EndsWithin.mono {m n : Nat} (h : EndsWithin step? m s t) (hmn : m ≤ n) :
    EndsWithin step? n s t := by
  obtain ⟨ss, hss, hlength⟩ := h
  exact ⟨ss, hss, Nat.le_trans hlength hmn⟩

/-! ## What a loop depends on -/

theorem Loops.congr {ss : List σ} (h : Loops step? s ss t)
    (agree : ∀ u ∈ ss ++ [t], other? u = step? u) : Loops other? s ss t := by
  induction h with
  | @stop s hs =>
    have hother := agree s (by simp)
    exact .stop (hother.trans hs)
  | @turn s t _ ss hs _ ih =>
    have hother := agree s (by simp)
    exact .turn (hother.trans hs) (ih fun u hu => agree u (List.mem_cons_of_mem s hu))

theorem runSteps_congr {n : Nat}
    (agree : ∀ u ∈ turns step? n s ++ [runSteps step? n s], other? u = step? u) :
    runSteps other? n s = runSteps step? n s := by
  induction n generalizing s with
  | zero => rfl
  | succ n ih =>
    cases hs : step? s with
    | none =>
      rw [turns_none hs, runSteps_none hs] at agree
      rw [runSteps_none hs, runSteps_none]
      rw [agree s (by simp), hs]
    | some t =>
      rw [turns_some hs, runSteps_some hs] at agree
      have hother : other? s = some t := by rw [agree s (by simp), hs]
      rw [runSteps_some hs, runSteps_some hother]
      exact ih fun u hu => agree u (List.mem_cons_of_mem s hu)

end UiConformance
