import UiConformance.Proofs.Sweep
import UiConformance.Proofs.Turns

/-!
# What a walk asks of a platform

The loops of a walk follow links that a platform supplies, so that nothing about the platform makes
them end. The descent into the subtree and the sweep over the siblings end because admitting an
element takes a unit of the budget; the climb to the ancestors ends because a handle that occurs
again stops it. Here the turns of each loop are counted, and the navigation calls that it makes are
listed: they are those that its draft comes to hold. A list of calls is complete: a platform that
answers them in the same way leads to the same result, whatever it makes of any other call.
-/

namespace UiConformance

variable {H : Type}

/-- The two platforms answer these calls alike. -/
def Platform.AgreeOn (P Q : Platform H) (calls : List (Navigation × H)) : Prop :=
  ∀ c ∈ calls, Q.navigate c.1 c.2 = P.navigate c.1 c.2

namespace Platform.AgreeOn

variable {P Q : Platform H} {calls more : List (Navigation × H)} {n : Navigation} {h : H}

theorem head (ha : P.AgreeOn Q ((n, h) :: calls)) : Q.navigate n h = P.navigate n h :=
  ha (n, h) List.mem_cons_self

theorem tail {c : Navigation × H} (ha : P.AgreeOn Q (c :: calls)) : P.AgreeOn Q calls :=
  fun d hd => ha d (List.mem_cons_of_mem c hd)

theorem of_mem_flatMap {α : Type} {as : List α} {f : α → List (Navigation × H)} {a : α}
    (ha : P.AgreeOn Q (as.flatMap f)) (hm : a ∈ as) : P.AgreeOn Q (f a) :=
  fun c hc => ha c (List.mem_flatMap.mpr ⟨a, hm, hc⟩)

theorem ask_eq (ha : Q.navigate n h = P.navigate n h) (d : Draft H) :
    d.ask Q n h = d.ask P n h := by
  unfold Draft.ask
  rw [ha]

end Platform.AgreeOn

/-- A phase that starts from a draft makes these calls and no more of them than `most`. -/
structure Draft.Frugal (d : Draft H) (phase : Platform H → Draft H) (P : Platform H)
    (calls : List (Navigation × H)) (most : Nat) : Prop where
  /-- These are the calls that it makes, in their order. -/
  asked : (phase P).asked = d.asked ++ calls.toArray
  length_le : calls.length ≤ most
  /-- Nothing else that the platform would answer makes a difference. -/
  agree : ∀ Q, P.AgreeOn Q calls → phase Q = phase P
  /-- Every element that is admitted takes a unit of what remains of the budget. -/
  size_le : (phase P).outline.size ≤ d.outline.size + d.counter.remaining

/-! ## The subtree -/

namespace Descent

/-- The turn asks the budget for one more element. -/
def asks (d : Descent H) : Bool :=
  match d.stack with
  | ⟨_, some _⟩ :: _ => true
  | _ => false

/-- The navigation calls of a turn. -/
def calls (d : Descent H) : List (Navigation × H) :=
  match d.stack with
  | ⟨_, some h⟩ :: _ => if d.draft.tryIncrement.1 then [(.nextSibling, h), (.firstChild, h)] else []
  | _ => []

/-- The three kinds of turn. -/
inductive Turn (P : Platform H) : Descent H → Descent H → Prop
  | close (d : Draft H) (p : Nat) (rest : List (Frame H)) : Turn P ⟨d, ⟨p, none⟩ :: rest⟩ ⟨d, rest⟩
  | refuse {d e : Draft H} (p : Nat) (h : H) (rest : List (Frame H)) : d.counter.remaining = 0 →
      d.GrownBy e [] 1 → Turn P ⟨d, ⟨p, some h⟩ :: rest⟩ ⟨e, rest⟩
  | grant {d e : Draft H} (p : Nat) (h : H) (rest : List (Frame H)) : 0 < d.counter.remaining →
      d.GrownBy e [(p, h)] 0 → Turn P ⟨d, ⟨p, some h⟩ :: rest⟩
        ⟨e, ⟨d.outline.size, P.reach? .firstChild h⟩ :: ⟨p, P.reach? .nextSibling h⟩ :: rest⟩

variable {P Q : Platform H} {d e : Descent H}

theorem turn_of_step? (h : step? P d = some e) : Turn P d e := by
  obtain ⟨d, stack⟩ := d
  match stack with
  | [] => cases h
  | ⟨p, none⟩ :: rest =>
    obtain rfl := Option.some.inj h
    exact .close d p rest
  | ⟨p, some k⟩ :: rest =>
    rcases Nat.eq_zero_or_pos d.counter.remaining with hr | hr
    · obtain ⟨f, hs, hg⟩ := step?_refused (P := P) hr p k rest
      obtain rfl := Option.some.inj (hs.symm.trans h)
      exact .refuse p k rest hr hg
    · obtain ⟨f, hs, hg⟩ := step?_admitted (P := P) hr p k rest
      obtain rfl := Option.some.inj (hs.symm.trans h)
      exact .grant p k rest hr hg

theorem Turn.spends (h : Turn P d e) :
    e.draft.counter = d.draft.counter.spend (if d.asks then 1 else 0) := by
  cases h with
  | close => rfl
  | refuse _ _ _ _ hg => exact hg.counter
  | grant _ _ _ _ hg => exact hg.counter

/-- What remains pays for both calls of a turn that admits an element. -/
theorem Turn.pays (h : Turn P d e) :
    d.calls.length + 2 * e.draft.counter.remaining ≤ 2 * d.draft.counter.remaining := by
  cases h with
  | close => exact Nat.le_of_eq (Nat.zero_add _)
  | @refuse d e p h rest hr hg =>
    have hasks : d.tryIncrement.1 = false := by
      show d.counter.tryIncrement.1 = false
      rw [Counter.tryIncrement_fst, hr]
      rfl
    have hcalls : (⟨d, ⟨p, some h⟩ :: rest⟩ : Descent H).calls = [] := by simp [calls, hasks]
    have hrem := Counter.remaining_spend d.counter 1
    rw [hcalls, hg.counter]
    simp only [List.length_nil, Nat.zero_add]
    omega
  | @grant d e p h rest hr hg =>
    have hcalls : (⟨d, ⟨p, some h⟩ :: rest⟩ : Descent H).calls.length ≤ 2 := by
      simp only [calls]
      split <;> simp
    have hrem := Counter.remaining_spend d.counter 1
    rw [hg.counter]
    simp only [List.length_singleton, Nat.add_zero]
    omega

theorem Turn.conserves (h : Turn P d e) :
    e.draft.outline.size + e.draft.counter.remaining =
      d.draft.outline.size + d.draft.counter.remaining := by
  cases h with
  | close => rfl
  | refuse _ _ _ hr hg =>
    rw [hg.size_eq, hg.counter, Counter.remaining_spend, hr]
    simp
  | grant _ _ _ hr hg =>
    rw [hg.size_eq, hg.counter, Counter.remaining_spend]
    simp only [List.length_singleton]
    omega

theorem asked_step? (h : step? P d = some e) :
    e.draft.asked = d.draft.asked ++ d.calls.toArray := by
  obtain ⟨d, stack⟩ := d
  match stack with
  | [] => cases h
  | ⟨p, none⟩ :: rest =>
    obtain rfl := Option.some.inj h
    simp [calls]
  | ⟨p, some k⟩ :: rest =>
    cases ht : d.tryIncrement with
    | mk admitted f =>
      have hf : f.asked = d.asked := (congrArg (fun t => t.2.asked) ht).symm
      cases admitted with
      | false =>
        simp only [step?, ht, Option.some.injEq] at h
        subst h
        simp [calls, ht, hf]
      | true =>
        simp only [step?, ht, Option.some.injEq] at h
        subst h
        refine Array.ext' ?_
        simp [calls, ht, hf, Draft.add, Draft.link]

/-- A turn depends on the platform through its calls only. -/
theorem step?_congr (ha : P.AgreeOn Q d.calls) : step? Q d = step? P d := by
  obtain ⟨d, stack⟩ := d
  match stack with
  | [] => rfl
  | ⟨p, none⟩ :: rest => rfl
  | ⟨p, some h⟩ :: rest =>
    cases ht : d.tryIncrement with
    | mk admitted e =>
      cases admitted with
      | false => simp only [step?, ht]
      | true =>
        simp only [calls, ht, if_true] at ha
        simp only [step?, ht, Platform.AgreeOn.ask_eq ha.head, Platform.AgreeOn.ask_eq ha.tail.head]

end Descent

namespace Draft

variable (d : Draft H) (P : Platform H)

/-- The descent that starts with the element at `root`, which stands for `h`. -/
def opened (root : Nat) (h : H) : Descent H :=
  ⟨(d.ask P .firstChild h).2, [⟨root, (d.ask P .firstChild h).1⟩]⟩

/-- The calls of a phase that adds a subtree. -/
def subtreeCalls (root : Nat) : List (Navigation × H) :=
  match d.outline.handles[root]? with
  | none => []
  | some h => (.firstChild, h) ::
    (turns (Descent.step? P) (d.opened P root h).measure (d.opened P root h)).flatMap Descent.calls

/-- How often it asks the budget for an element. -/
def subtreeRequests (root : Nat) : Nat :=
  match d.outline.handles[root]? with
  | none => 0
  | some h =>
    (turns (Descent.step? P) (d.opened P root h).measure (d.opened P root h)).countP Descent.asks

variable {d P} {root : Nat} {h : H}

theorem addSubtree_eq (hh : d.outline.handles[root]? = some h) :
    d.addSubtree P root = ((d.opened P root h).run P).draft := by
  unfold addSubtree
  rw [hh]
  rfl

theorem counter_addSubtree :
    (d.addSubtree P root).counter = d.counter.spend (d.subtreeRequests P root) := by
  cases hh : d.outline.handles[root]? with
  | none =>
    unfold addSubtree subtreeRequests
    rw [hh]
    rfl
  | some h =>
    have hrun := counter_runSteps (Descent.step? P) (fun e => e.draft.counter) Descent.asks
      (fun s t hs => (Descent.turn_of_step? hs).spends) (d.opened P root h).measure
      (d.opened P root h)
    have hstart : (d.opened P root h).draft.counter = d.counter := counter_ask ..
    unfold subtreeRequests
    rw [addSubtree_eq hh, hh, ← hstart]
    exact hrun

theorem measure_opened : (d.opened P root h).measure = 2 * d.counter.remaining + 1 := by
  show 2 * (d.ask P .firstChild h).2.counter.remaining + 1 = _
  rw [counter_ask]

theorem endsWithin_opened : EndsWithin (Descent.step? P) (2 * d.counter.remaining + 1)
    (d.opened P root h) ((d.opened P root h).run P) := by
  have hloop := endsWithin_runSteps (Descent.step? P) Descent.measure
    (fun s t hs => Nat.lt_of_succ_le (Nat.le_of_eq (Descent.measure_step? hs)))
    (Nat.le_refl (d.opened P root h).measure)
  exact hloop.mono (Nat.le_of_eq measure_opened)

theorem length_subtreeCalls_le :
    (d.subtreeCalls P root).length ≤ 2 * d.counter.remaining + 1 := by
  unfold subtreeCalls
  cases d.outline.handles[root]? with
  | none => exact Nat.zero_le _
  | some h =>
    have hsum := sum_turns_le (Descent.step? P) (fun e => e.calls.length)
      (fun e => 2 * e.draft.counter.remaining) (fun s t hs => (Descent.turn_of_step? hs).pays)
      (d.opened P root h).measure (d.opened P root h)
    have hstart : (d.opened P root h).draft.counter = d.counter := counter_ask ..
    rw [List.length_cons, List.length_flatMap]
    rw [hstart] at hsum
    omega

theorem asked_addSubtree :
    (d.addSubtree P root).asked = d.asked ++ (d.subtreeCalls P root).toArray := by
  unfold subtreeCalls
  cases hh : d.outline.handles[root]? with
  | none =>
    unfold addSubtree
    rw [hh]
    exact (Array.append_empty).symm
  | some h =>
    have hrun := log_runSteps (Descent.step? P) (fun e => e.draft.asked) Descent.calls
      (fun s t hs => Descent.asked_step? hs) (d.opened P root h).measure (d.opened P root h)
    have hstart : (d.opened P root h).draft.asked = d.asked.push (.firstChild, h) := asked_ask ..
    rw [addSubtree_eq hh]
    refine hrun.trans ?_
    rw [hstart]
    simp

theorem addSubtree_congr {Q : Platform H} (ha : P.AgreeOn Q (d.subtreeCalls P root)) :
    d.addSubtree Q root = d.addSubtree P root := by
  cases hh : d.outline.handles[root]? with
  | none =>
    unfold addSubtree
    rw [hh]
  | some h =>
    unfold subtreeCalls at ha
    rw [hh] at ha
    have hopened : d.opened Q root h = d.opened P root h := by
      unfold opened
      rw [Platform.AgreeOn.ask_eq ha.head]
    rw [addSubtree_eq hh, addSubtree_eq hh, hopened]
    congr 1
    refine runSteps_congr fun u hu => ?_
    rcases List.mem_append.mp hu with hu | hu
    · exact Descent.step?_congr (ha.tail.of_mem_flatMap hu)
    · -- The last state has no open element, and no calls.
      have hstack := Descent.stack_run P (d.opened P root h)
      obtain rfl := List.mem_singleton.mp hu
      refine Descent.step?_congr fun c hc => ?_
      unfold Descent.calls at hc
      rw [show (runSteps _ _ _ : Descent H).stack = [] from hstack] at hc
      cases hc

theorem conserves_addSubtree (P : Platform H) (root : Nat) :
    (d.addSubtree P root).outline.size + (d.addSubtree P root).counter.remaining =
      d.outline.size + d.counter.remaining := by
  cases hh : d.outline.handles[root]? with
  | none =>
    unfold addSubtree
    rw [hh]
  | some h =>
    have hkept := runSteps_keeps (p := fun e : Descent H => e.draft.outline.size +
        e.draft.counter.remaining = d.outline.size + d.counter.remaining)
      (fun s t hs hp => (Descent.turn_of_step? (P := P) hs).conserves.trans hp)
      (d.opened P root h).measure (s := d.opened P root h) (by simp [opened])
    rw [addSubtree_eq hh]
    exact hkept

theorem frugal_addSubtree (d : Draft H) (P : Platform H) (root : Nat) :
    d.Frugal (fun Q => d.addSubtree Q root) P (d.subtreeCalls P root)
      (2 * d.counter.remaining + 1) :=
  ⟨asked_addSubtree, length_subtreeCalls_le, fun _ ha => addSubtree_congr ha,
    Nat.le.intro (conserves_addSubtree P root)⟩

end Draft

/-! ## The siblings -/

namespace Sweep

/-- The four kinds of turn. -/
inductive Turn (selected : H) (index : Nat) (s t : Sweep H) : Prop
  | again : s.cursor = some selected → s.seen = true → t.cursor = none → GrownBy index s t [] 0 →
      Turn selected index s t
  | meet : s.cursor = some selected → s.seen = false → t.seen = true → GrownBy index s t [none] 0 →
      Turn selected index s t
  | refuse {h : H} : s.cursor = some h → h ≠ selected → s.draft.counter.remaining = 0 →
      t.cursor = none → GrownBy index s t [] 1 → Turn selected index s t
  | grant {h : H} : s.cursor = some h → h ≠ selected → 0 < s.draft.counter.remaining →
      t.seen = s.seen → GrownBy index s t [some h] 0 → Turn selected index s t

variable {P Q : Platform H} {selected : H} {index : Nat} {s t : Sweep H}

theorem GrownBy.remaining_eq {slots : List (Option H)} {k : Nat} (h : GrownBy index s t slots k) :
    t.draft.counter.remaining =
      s.draft.counter.remaining - ((newcomers slots).length + k) := by
  rw [h.counter, Counter.remaining_spend]

theorem GrownBy.size_eq {slots : List (Option H)} {k : Nat} (h : GrownBy index s t slots k) :
    t.draft.outline.size = s.draft.outline.size + (newcomers slots).length := by
  rw [h.outline, Outline.size_addAll]

theorem Turn.lowers (h : Turn selected index s t) : t.measure < s.measure := by
  have hle := measure_le_of_remaining t
  cases h with
  | again hc hs hcur _ =>
    rw [measure_none hcur, measure_some hc, hs]
    exact Nat.succ_pos _
  | meet hc hs hseen hg =>
    have hrem := hg.remaining_eq
    rw [hseen, if_pos rfl] at hle
    rw [measure_some hc, hs, if_neg Bool.false_ne_true]
    simp only [newcomers_none, newcomers_nil, List.length_nil] at hrem
    omega
  | refuse hc _ _ hcur _ =>
    rw [measure_none hcur, measure_some hc]
    split <;> omega
  | grant hc _ hr hseen hg =>
    have hrem := hg.remaining_eq
    rw [hseen] at hle
    rw [measure_some hc]
    simp only [newcomers_some, newcomers_nil, List.length_singleton] at hrem
    omega

theorem Turn.conserves (h : Turn selected index s t) :
    t.draft.outline.size + t.draft.counter.remaining =
      s.draft.outline.size + s.draft.counter.remaining := by
  cases h with
  | again _ _ _ hg => rw [hg.size_eq, hg.remaining_eq]; rfl
  | meet _ _ _ hg => rw [hg.size_eq, hg.remaining_eq]; rfl
  | refuse _ _ hr _ hg => rw [hg.size_eq, hg.remaining_eq, hr]; simp
  | grant _ _ hr _ hg =>
    rw [hg.size_eq, hg.remaining_eq]
    simp only [newcomers_some, newcomers_nil, List.length_singleton]
    omega

theorem measure_le_allowance (s : Sweep H) : s.measure ≤ s.allowance := by
  have hle := measure_le_of_remaining s
  unfold allowance
  split at hle <;> omega

variable [DecidableEq H]

/-- The turn asks the budget for one more element. -/
def asks (selected : H) (s : Sweep H) : Bool :=
  match s.cursor with
  | none => false
  | some h => decide (h ≠ selected)

/-- The navigation calls of a turn. -/
def calls (selected : H) (s : Sweep H) : List (Navigation × H) :=
  match s.cursor with
  | none => []
  | some h =>
    if h = selected then if s.seen then [] else [(.nextSibling, h)]
    else if s.draft.tryIncrement.1 then [(.nextSibling, h)] else []

theorem exists_turn (P : Platform H) (selected : H) (index : Nat) {h : H}
    (hc : s.cursor = some h) : ∃ t, step? P selected index s = some t ∧ Turn selected index s t := by
  by_cases hk : h = selected
  · subst hk
    cases hs : s.seen with
    | true =>
      obtain ⟨t, ht, hcur, hg⟩ := step?_again P index hc hs
      exact ⟨t, ht, .again hc hs hcur hg⟩
    | false =>
      obtain ⟨t, ht, -, hseen, hg⟩ := step?_selected P index hc hs
      exact ⟨t, ht, .meet hc hs hseen hg⟩
  · rcases Nat.eq_zero_or_pos s.draft.counter.remaining with hr | hr
    · obtain ⟨t, ht, hcur, hg⟩ := step?_refused P index hc hk hr
      exact ⟨t, ht, .refuse hc hk hr hcur hg⟩
    · obtain ⟨t, ht, -, hseen, hg⟩ := step?_admitted P index hc hk hr
      exact ⟨t, ht, .grant hc hk hr hseen hg⟩

theorem turn_of_step? (h : step? P selected index s = some t) : Turn selected index s t := by
  cases hc : s.cursor with
  | none =>
    rw [step?_finished hc] at h
    cases h
  | some k =>
    obtain ⟨u, hu, hturn⟩ := exists_turn P selected index hc
    obtain rfl := Option.some.inj (hu.symm.trans h)
    exact hturn

theorem Turn.spends (h : Turn selected index s t) :
    t.draft.counter = s.draft.counter.spend (if s.asks selected then 1 else 0) := by
  cases h with
  | again hc _ _ hg => simpa [asks, hc] using hg.counter
  | meet hc _ _ hg => simpa [asks, hc] using hg.counter
  | refuse hc hne _ _ hg => simpa [asks, hc, hne] using hg.counter
  | grant hc hne _ _ hg => simpa [asks, hc, hne] using hg.counter

/-- What remains pays for a call after each element that is admitted, and one more is made after
the selected element. -/
theorem Turn.pays (h : Turn selected index s t) :
    (s.calls selected).length + (t.draft.counter.remaining + if t.seen then 0 else 1) ≤
      s.draft.counter.remaining + if s.seen then 0 else 1 := by
  cases h with
  | again hc hs _ hg =>
    have hcalls : s.calls selected = [] := by simp [calls, hc, hs]
    have hseen : t.seen = true := hg.seen.mpr (.inl hs)
    rw [hcalls, hs, hseen, hg.remaining_eq]
    simp
  | meet hc hs hseen hg =>
    have hcalls : s.calls selected = [(.nextSibling, selected)] := by simp [calls, hc, hs]
    rw [hcalls, hs, hseen, hg.remaining_eq]
    simp only [newcomers_none, newcomers_nil, List.length_nil, List.length_singleton, if_true,
      Bool.false_eq_true, if_false]
    omega
  | refuse hc hne hr _ hg =>
    have hasks : s.draft.tryIncrement.1 = false := by
      show s.draft.counter.tryIncrement.1 = false
      rw [Counter.tryIncrement_fst, hr]
      rfl
    have hcalls : s.calls selected = [] := by simp [calls, hc, hne, hasks]
    have hseen : t.seen = s.seen := by
      have := hg.seen
      cases hs : s.seen <;> simp_all
    rw [hcalls, hseen, hg.remaining_eq]
    simp
  | grant hc hne hr hseen hg =>
    have hcalls : (s.calls selected).length ≤ 1 := by
      simp only [calls, hc, if_neg hne]
      split <;> simp
    have hrem := hg.remaining_eq
    simp only [newcomers_some, newcomers_nil, List.length_singleton] at hrem
    rw [hseen]
    omega

theorem asked_step? (h : step? P selected index s = some t) :
    t.draft.asked = s.draft.asked ++ (s.calls selected).toArray := by
  obtain ⟨d, ordered, seen, cursor⟩ := s
  cases cursor with
  | none => cases h
  | some k =>
    by_cases hk : k = selected
    · cases seen with
      | true =>
        simp only [step?, if_pos hk, if_true, Option.some.injEq] at h
        subst h
        simp [calls, hk]
      | false =>
        simp only [step?, if_pos hk, Bool.false_eq_true, if_false, Option.some.injEq] at h
        subst h
        simp [calls, hk, advance]
    · cases ht : d.tryIncrement with
      | mk admitted f =>
        have hf : f.asked = d.asked := (congrArg (fun t => t.2.asked) ht).symm
        cases admitted with
        | false =>
          simp only [step?, if_neg hk, ht, Option.some.injEq] at h
          subst h
          simp [calls, hk, ht, hf]
        | true =>
          simp only [step?, if_neg hk, ht, Option.some.injEq] at h
          subst h
          simp [calls, hk, ht, hf, advance, Draft.add]

/-- A turn depends on the platform through its calls only. -/
theorem step?_congr (ha : P.AgreeOn Q (s.calls selected)) :
    step? Q selected index s = step? P selected index s := by
  obtain ⟨d, ordered, seen, cursor⟩ := s
  cases cursor with
  | none => rfl
  | some h =>
    by_cases hk : h = selected
    · cases seen with
      | true => simp only [step?, if_pos hk, if_true]
      | false =>
        simp only [calls, if_pos hk, Bool.false_eq_true, if_false] at ha
        simp only [step?, if_pos hk, Bool.false_eq_true, if_false, advance,
          Platform.AgreeOn.ask_eq ha.head]
    · cases ht : d.tryIncrement with
      | mk admitted e =>
        cases admitted with
        | false => simp only [step?, if_neg hk, ht]
        | true =>
          simp only [calls, if_neg hk, ht, if_true] at ha
          simp only [step?, if_neg hk, ht, advance, Platform.AgreeOn.ask_eq ha.head]

theorem step?_run (P : Platform H) (selected : H) (index : Nat) (s : Sweep H) :
    step? P selected index (run P selected index s) = none :=
  step?_runSteps (step? P selected index) measure (fun _ _ hs => (turn_of_step? hs).lowers)
    s.measure_le_allowance

/-- A sweep ends because there is no sibling to go on to. -/
theorem cursor_run (P : Platform H) (selected : H) (index : Nat) (s : Sweep H) :
    (run P selected index s).cursor = none := by
  cases hc : (run P selected index s).cursor with
  | none => rfl
  | some h =>
    obtain ⟨t, ht, -⟩ := exists_turn P selected index hc
    rw [step?_run] at ht
    cases ht

end Sweep

namespace Draft

/-- The parent of the element at `index`, what the element stands for, and what its parent does. -/
def beside? (d : Draft H) (index : Nat) : Option (Nat × H × H) := do
  let parent ← d.outline.parent? index
  let selected ← d.outline.handles[index]?
  let above ← d.outline.handles[parent]?
  return (parent, selected, above)

section

variable (d : Draft H) (P : Platform H)

/-- The sweep over the children of the element that `above` stands for. -/
def sweeping (above : H) : Sweep H :=
  { draft := (d.ask P .firstChild above).2, cursor := (d.ask P .firstChild above).1 }

variable [DecidableEq H]

/-- The turns of the sweep. -/
def sweepTurns (selected : H) (index : Nat) (above : H) : List (Sweep H) :=
  turns (Sweep.step? P selected index) (d.sweeping P above).allowance (d.sweeping P above)

/-- The calls of a phase that adds the siblings of the element at `index`. -/
def siblingCalls (index : Nat) : List (Navigation × H) :=
  match d.beside? index with
  | none => []
  | some (_, selected, above) =>
    (.firstChild, above) :: (d.sweepTurns P selected index above).flatMap (Sweep.calls selected)

/-- How often it asks the budget for an element. -/
def siblingRequests (index : Nat) : Nat :=
  match d.beside? index with
  | none => 0
  | some (_, selected, above) => (d.sweepTurns P selected index above).countP (Sweep.asks selected)

end

variable {d : Draft H} {P : Platform H} {index parent : Nat} {selected above : H}

theorem counter_sweeping : (d.sweeping P above).draft.counter = d.counter := counter_ask ..

variable [DecidableEq H]

theorem addSiblings_none (h : d.beside? index = none) : d.addSiblings P index = d := by
  unfold beside? at h
  unfold addSiblings
  cases hp : d.outline.parent? index with
  | none => rfl
  | some parent =>
    cases hs : d.outline.handles[index]? with
    | none => simp only
    | some selected =>
      cases ha : d.outline.handles[parent]? with
      | none => simp only [ha]
      | some above => simp [hp, hs, ha] at h

theorem addSiblings_some (h : d.beside? index = some (parent, selected, above)) :
    d.addSiblings P index = (Sweep.run P selected index (d.sweeping P above)).draft.adopt parent
      ((Sweep.run P selected index (d.sweeping P above)).children index) := by
  simp only [beside?, Option.bind_eq_bind, Option.bind_eq_some_iff, Option.pure_def,
    Option.some.injEq, Prod.mk.injEq] at h
  obtain ⟨_, hp, _, hs, _, ha, rfl, rfl, rfl⟩ := h
  unfold addSiblings
  rw [hp]
  simp only [hs, ha]
  rfl

theorem counter_addSiblings :
    (d.addSiblings P index).counter = d.counter.spend (d.siblingRequests P index) := by
  unfold siblingRequests
  cases hb : d.beside? index with
  | none =>
    rw [addSiblings_none hb]
    rfl
  | some b =>
    obtain ⟨parent, selected, above⟩ := b
    have hrun := counter_runSteps (Sweep.step? P selected index) (fun s => s.draft.counter)
      (Sweep.asks selected) (fun s t hs => (Sweep.turn_of_step? hs).spends)
      (d.sweeping P above).allowance (d.sweeping P above)
    rw [counter_sweeping] at hrun
    rw [addSiblings_some hb]
    exact hrun

theorem endsWithin_sweeping (P : Platform H) (d : Draft H) (selected : H) (index : Nat) (above : H) :
    EndsWithin (Sweep.step? P selected index) (d.counter.remaining + 2) (d.sweeping P above)
      (Sweep.run P selected index (d.sweeping P above)) := by
  have hloop := endsWithin_runSteps (Sweep.step? P selected index) Sweep.measure
    (fun s t hs => (Sweep.turn_of_step? hs).lowers) (d.sweeping P above).measure_le_allowance
  have hle := (d.sweeping P above).measure_le_allowance
  rw [Sweep.allowance, counter_sweeping] at hle
  exact hloop.mono hle

theorem length_siblingCalls_le :
    (d.siblingCalls P index).length ≤ d.counter.remaining + 2 := by
  unfold siblingCalls
  cases d.beside? index with
  | none => exact Nat.zero_le _
  | some b =>
    obtain ⟨parent, selected, above⟩ := b
    have hsum := sum_turns_le (Sweep.step? P selected index) (fun s => (s.calls selected).length)
      (fun s => s.draft.counter.remaining + if s.seen then 0 else 1)
      (fun s t hs => (Sweep.turn_of_step? hs).pays) (d.sweeping P above).allowance
      (d.sweeping P above)
    have hseen : (d.sweeping P above).seen = false := rfl
    rw [counter_sweeping, hseen, if_neg Bool.false_ne_true] at hsum
    rw [List.length_cons, List.length_flatMap]
    unfold sweepTurns
    omega

theorem asked_addSiblings :
    (d.addSiblings P index).asked = d.asked ++ (d.siblingCalls P index).toArray := by
  unfold siblingCalls
  cases hb : d.beside? index with
  | none =>
    rw [addSiblings_none hb]
    exact (Array.append_empty).symm
  | some b =>
    obtain ⟨parent, selected, above⟩ := b
    have hrun := log_runSteps (Sweep.step? P selected index) (fun s => s.draft.asked)
      (Sweep.calls selected) (fun s t hs => Sweep.asked_step? hs) (d.sweeping P above).allowance
      (d.sweeping P above)
    have hstart : (d.sweeping P above).draft.asked = d.asked.push (.firstChild, above) :=
      asked_ask ..
    rw [addSiblings_some hb]
    refine hrun.trans ?_
    rw [hstart]
    simp [sweepTurns]

theorem addSiblings_congr {Q : Platform H} (ha : P.AgreeOn Q (d.siblingCalls P index)) :
    d.addSiblings Q index = d.addSiblings P index := by
  unfold siblingCalls at ha
  cases hb : d.beside? index with
  | none => rw [addSiblings_none hb, addSiblings_none hb]
  | some b =>
    obtain ⟨parent, selected, above⟩ := b
    rw [hb] at ha
    have hstart : d.sweeping Q above = d.sweeping P above := by
      unfold sweeping
      rw [Platform.AgreeOn.ask_eq ha.head]
    have hrun : Sweep.run Q selected index (d.sweeping P above) =
        Sweep.run P selected index (d.sweeping P above) := by
      refine runSteps_congr fun u hu => ?_
      rcases List.mem_append.mp hu with hu | hu
      · exact Sweep.step?_congr (ha.tail.of_mem_flatMap hu)
      · -- At the end there is no sibling to go on to, whatever the platform.
        have hcursor := Sweep.cursor_run P selected index (d.sweeping P above)
        obtain rfl := List.mem_singleton.mp hu
        exact (Sweep.step?_finished hcursor).trans (Sweep.step?_finished hcursor).symm
    rw [addSiblings_some hb, addSiblings_some hb, hstart, hrun]

theorem conserves_addSiblings (P : Platform H) (d : Draft H) (index : Nat) :
    (d.addSiblings P index).outline.size + (d.addSiblings P index).counter.remaining =
      d.outline.size + d.counter.remaining := by
  cases hb : d.beside? index with
  | none => rw [addSiblings_none hb]
  | some b =>
    obtain ⟨parent, selected, above⟩ := b
    have hturn : ∀ s t, Sweep.step? P selected index s = some t →
        s.draft.outline.size + s.draft.counter.remaining =
          d.outline.size + d.counter.remaining →
        t.draft.outline.size + t.draft.counter.remaining =
          d.outline.size + d.counter.remaining :=
      fun s t hs hp => (Sweep.turn_of_step? hs).conserves.trans hp
    have hkept := runSteps_keeps hturn (d.sweeping P above).allowance (s := d.sweeping P above)
      (by simp [sweeping])
    rw [addSiblings_some hb]
    show (Outline.adopt _ parent _).size + _ = _
    rw [Outline.size_adopt]
    exact hkept

theorem frugal_addSiblings (d : Draft H) (P : Platform H) (index : Nat) :
    d.Frugal (fun Q => d.addSiblings Q index) P (d.siblingCalls P index)
      (d.counter.remaining + 2) :=
  ⟨asked_addSiblings, length_siblingCalls_le, fun _ ha => addSiblings_congr ha,
    Nat.le.intro (conserves_addSiblings P d index)⟩

end Draft

end UiConformance
