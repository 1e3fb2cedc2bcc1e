import UiConformance.Proofs.Descent
import UiConformance.Walk.Siblings

/-!
# What a sweep over siblings takes

A sweep takes slots: `none` is the place of the selected element and `some h` a sibling that is
added. `Sweeps P selected b seen c slots k` says that from the cursor `c`, under a budget `b`, the
slots are taken and `k` requests are refused (at most one). The selected element is never taken
twice, and `filled slots` puts it last where it was not met at all, so that exactly one slot of
`filled slots` is the selected element's.

`exists_sweeps` says what the sweep of a walk makes of a draft in these terms.
-/

namespace UiConformance

variable {H : Type}

/-! ## Slots -/

/-- The handles that slots add. -/
def newcomers (slots : List (Option H)) : List H := slots.filterMap id

/-- The positions of slots, where the selected element is at `index` and the next new one at `n`. -/
def positions (index : Nat) : Nat → List (Option H) → List Nat
  | _, [] => []
  | n, none :: slots => index :: positions index n slots
  | n, some _ :: slots => n :: positions index (n + 1) slots

/-- The slots with the selected element as the last where it is not among them. -/
def filled [DecidableEq H] (slots : List (Option H)) : List (Option H) :=
  if none ∈ slots then slots else slots ++ [none]

@[simp] theorem newcomers_nil : newcomers ([] : List (Option H)) = [] := rfl

@[simp] theorem newcomers_none (slots : List (Option H)) :
    newcomers (none :: slots) = newcomers slots := rfl

@[simp] theorem newcomers_some (h : H) (slots : List (Option H)) :
    newcomers (some h :: slots) = h :: newcomers slots := rfl

theorem newcomers_append (ss ts : List (Option H)) :
    newcomers (ss ++ ts) = newcomers ss ++ newcomers ts := List.filterMap_append

theorem newcomers_filled [DecidableEq H] (slots : List (Option H)) :
    newcomers (filled slots) = newcomers slots := by
  unfold filled
  split
  · rfl
  · rw [newcomers_append]; exact List.append_nil _

/-- Slots with at most one place for the selected element get one where they have none. -/
theorem filled_eq [DecidableEq H] {slots : List (Option H)}
    (h : slots.countP Option.isNone ≤ 1) :
    filled slots = slots ++ List.replicate (1 - slots.countP Option.isNone) none := by
  unfold filled
  split
  · next hm =>
    have : 0 < slots.countP Option.isNone := List.countP_pos_iff.mpr ⟨none, hm, rfl⟩
    rw [show 1 - slots.countP Option.isNone = 0 by omega]
    exact (List.append_nil _).symm
  · next hm =>
    have : slots.countP Option.isNone = 0 := List.countP_eq_zero.mpr fun s hs hn => by
      rw [Option.isNone_iff_eq_none] at hn
      exact hm (hn ▸ hs)
    rw [this]
    rfl

theorem countP_filled [DecidableEq H] {slots : List (Option H)}
    (h : slots.countP Option.isNone ≤ 1) : (filled slots).countP Option.isNone = 1 := by
  rw [filled_eq h, List.countP_append, List.countP_replicate]
  simp
  omega

theorem positions_append (index n : Nat) (ss ts : List (Option H)) :
    positions index n (ss ++ ts) =
      positions index n ss ++ positions index (n + (newcomers ss).length) ts := by
  induction ss generalizing n with
  | nil => rfl
  | cons s ss ih =>
    cases s with
    | none => simp [positions, ih]
    | some h => simp [positions, ih, Nat.add_assoc, Nat.add_comm 1]

/-- The positions are those of the new elements and, once for each of its slots, the selected
element's. -/
theorem positions_perm (index n : Nat) (slots : List (Option H)) :
    (positions index n slots).Perm
      (List.replicate (slots.countP Option.isNone) index ++
        List.range' n (newcomers slots).length) := by
  induction slots generalizing n with
  | nil => exact .refl _
  | cons s ss ih =>
    cases s with
    | none => simpa [positions, List.replicate_succ] using ih n
    | some h =>
      have hr : List.range' n ((newcomers ss).length + 1) =
          n :: List.range' (n + 1) (newcomers ss).length := List.range'_succ
      simp only [positions, newcomers_some, List.length_cons, hr]
      exact ((ih (n + 1)).cons n).trans List.perm_middle.symm

theorem lt_of_mem_positions {index n j : Nat} {slots : List (Option H)} (hi : index < n)
    (hj : j ∈ positions index n slots) : j < n + (newcomers slots).length := by
  rw [(positions_perm index n slots).mem_iff, List.mem_append] at hj
  rcases hj with hj | hj
  · have := List.eq_of_mem_replicate hj
    omega
  · exact (List.mem_range'_1.mp hj).2

theorem positions_replicate_none (index n k : Nat) :
    positions index n (List.replicate k (none : Option H)) = List.replicate k index := by
  induction k with
  | zero => rfl
  | succ k ih => rw [List.replicate_succ, positions, ih, List.replicate_succ]

/-- Below the first new position there are only the slots of the selected element. -/
theorem filter_positions {index n m : Nat} (hi : index < m) (hm : m ≤ n)
    (slots : List (Option H)) :
    (positions index n slots).filter (· < m) =
      List.replicate (slots.countP Option.isNone) index := by
  induction slots generalizing n with
  | nil => rfl
  | cons s ss ih =>
    cases s with
    | none => simp [positions, hi, ih hm, List.replicate_succ]
    | some h => simp [positions, Nat.not_lt.mpr hm, ih (Nat.le_succ_of_le hm)]

/-- The first slots of a sweep have, filled, the positions that are there by then. -/
theorem positions_filled_eq_filter [DecidableEq H] {index n : Nat} (hi : index < n)
    {slots slots' : List (Option H)} (hp : slots <+: slots')
    (hc : slots'.countP Option.isNone ≤ 1) :
    positions index n (filled slots) =
      (positions index n (filled slots')).filter (· < n + (newcomers slots).length) := by
  obtain ⟨more, rfl⟩ := hp
  rw [List.countP_append] at hc
  have hkeep : (positions index n slots).filter (· < n + (newcomers slots).length) =
      positions index n slots :=
    List.filter_eq_self.mpr fun j hj => decide_eq_true (lt_of_mem_positions hi hj)
  rw [filled_eq (by omega), filled_eq (by rw [List.countP_append]; exact hc), List.append_assoc,
    positions_append, positions_append, List.filter_append, hkeep, positions_replicate_none,
    filter_positions (by omega) (Nat.le_refl _), List.countP_append, List.countP_append,
    List.countP_replicate]
  congr 2
  simp
  omega

/-! ## The sweep as a recursion -/

inductive Sweeps (P : Platform H) (selected : H) :
    Nat → Bool → Option H → List (Option H) → Nat → Prop
  | finished (b : Nat) (seen : Bool) : Sweeps P selected b seen none [] 0
  | again (b : Nat) : Sweeps P selected b true (some selected) [] 0
  | selected {b : Nat} {slots : List (Option H)} {k : Nat} :
      Sweeps P selected b true (P.reach? .nextSibling selected) slots k →
      Sweeps P selected b false (some selected) (none :: slots) k
  | refused {seen : Bool} {h : H} : h ≠ selected → Sweeps P selected 0 seen (some h) [] 1
  | admitted {b : Nat} {seen : Bool} {h : H} {slots : List (Option H)} {k : Nat} :
      h ≠ selected → Sweeps P selected b seen (P.reach? .nextSibling h) slots k →
      Sweeps P selected (b + 1) seen (some h) (some h :: slots) k

namespace Sweeps

variable {P : Platform H} {selected : H} {b : Nat} {seen : Bool} {c : Option H}
  {slots : List (Option H)} {k : Nat}

theorem length_le (h : Sweeps P selected b seen c slots k) : (newcomers slots).length ≤ b := by
  induction h with
  | finished => exact Nat.zero_le _
  | again => exact Nat.zero_le _
  | selected _ ih => exact ih
  | refused => exact Nat.le_refl _
  | admitted _ _ ih => exact Nat.succ_le_succ ih

theorem length_eq (h : Sweeps P selected b seen c slots k) (hk : 0 < k) :
    (newcomers slots).length = b := by
  induction h with
  | finished => omega
  | again => omega
  | selected _ ih => exact ih hk
  | refused => rfl
  | admitted _ _ ih => exact congrArg Nat.succ (ih hk)

theorem countP_le (h : Sweeps P selected b seen c slots k) :
    slots.countP Option.isNone + (if seen then 1 else 0) ≤ 1 := by
  induction h with
  | finished b seen => cases seen <;> simp
  | again => simp
  | selected _ ih => simpa using ih
  | @refused seen => cases seen <;> simp
  | admitted _ _ ih => simpa using ih

/-- A larger budget takes the same slots first, and exactly these where the smaller one was
enough. -/
theorem isPrefix_of_le {b' : Nat} {slots' : List (Option H)} {l : Nat}
    (h : Sweeps P selected b seen c slots k) (h' : Sweeps P selected b' seen c slots' l)
    (hb : b ≤ b') : slots <+: slots' ∧ (k = 0 → slots = slots' ∧ l = 0) := by
  induction h generalizing b' slots' l with
  | finished =>
    cases h'
    exact ⟨List.prefix_rfl, fun _ => ⟨rfl, rfl⟩⟩
  | again =>
    cases h' with
    | again => exact ⟨List.prefix_rfl, fun _ => ⟨rfl, rfl⟩⟩
    | refused hne => exact absurd rfl hne
    | admitted hne => exact absurd rfl hne
  | selected _ ih =>
    cases h' with
    | refused hne => exact absurd rfl hne
    | admitted hne => exact absurd rfl hne
    | selected h' =>
      obtain ⟨hp, he⟩ := ih h' hb
      refine ⟨List.cons_prefix_cons.mpr ⟨rfl, hp⟩, fun hk => ?_⟩
      obtain ⟨rfl, rfl⟩ := he hk
      exact ⟨rfl, rfl⟩
  | refused => exact ⟨List.nil_prefix, fun h => by cases h⟩
  | admitted hne _ ih =>
    cases h' with
    | again => exact absurd rfl hne
    | selected => exact absurd rfl hne
    | refused => omega
    | admitted _ h' =>
      obtain ⟨hp, he⟩ := ih h' (by omega)
      refine ⟨List.cons_prefix_cons.mpr ⟨rfl, hp⟩, fun hk => ?_⟩
      obtain ⟨rfl, rfl⟩ := he hk
      exact ⟨rfl, rfl⟩

end Sweeps

/-! ## Runs of the sweep -/

namespace Sweep

/-- `t` comes from `s` by the slots that were taken and so many refused requests. -/
structure GrownBy (index : Nat) (s t : Sweep H) (slots : List (Option H)) (refused : Nat) :
    Prop where
  outline : t.draft.outline = s.draft.outline.addAll s.draft.nextId (newcomers slots)
  nextId : t.draft.nextId = s.draft.nextId + (newcomers slots).length
  counter : t.draft.counter = s.draft.counter.spend ((newcomers slots).length + refused)
  ordered : t.ordered.toList =
    s.ordered.toList ++ positions index s.draft.outline.size slots
  seen : t.seen = true ↔ s.seen = true ∨ none ∈ slots

theorem GrownBy.trans {index : Nat} {s t u : Sweep H} {ss ts : List (Option H)} {k l : Nat}
    (h : GrownBy index s t ss k) (h' : GrownBy index t u ts l) :
    GrownBy index s u (ss ++ ts) (k + l) := by
  obtain ⟨ho, hn, hc, hs, hb⟩ := h
  refine ⟨?_, ?_, ?_, ?_, ?_⟩
  · rw [h'.outline, ho, hn, newcomers_append, Outline.addAll_append]
  · rw [h'.nextId, hn, newcomers_append, List.length_append]; omega
  · rw [h'.counter, hc, ← Counter.spend_add, newcomers_append, List.length_append]
    congr 1; omega
  · rw [h'.ordered, hs, ho, Outline.size_addAll, positions_append, List.append_assoc]
  · rw [h'.seen, hb, List.mem_append, or_assoc]

/-- Steps that are still to come, at most. -/
def measure (s : Sweep H) : Nat :=
  match s.cursor with
  | none => 0
  | some _ => s.draft.counter.remaining + if s.seen then 1 else 2

theorem measure_none {s : Sweep H} (hc : s.cursor = none) : s.measure = 0 := by
  unfold measure; rw [hc]

theorem measure_some {s : Sweep H} {h : H} (hc : s.cursor = some h) :
    s.measure = s.draft.counter.remaining + if s.seen then 1 else 2 := by
  unfold measure; rw [hc]

theorem measure_le_of_remaining (s : Sweep H) :
    s.measure ≤ s.draft.counter.remaining + if s.seen then 1 else 2 := by
  unfold measure; split <;> omega

variable [DecidableEq H] {P : Platform H} {selected : H} {index : Nat} {s : Sweep H}

theorem step?_finished (hc : s.cursor = none) : step? P selected index s = none := by
  unfold step?; rw [hc]

theorem step?_again (P : Platform H) (index : Nat) (hc : s.cursor = some selected)
    (hs : s.seen = true) :
    ∃ t, step? P selected index s = some t ∧ t.cursor = none ∧ GrownBy index s t [] 0 := by
  refine ⟨{ s with cursor := none }, ?_, rfl, rfl, (Int.add_zero _).symm, rfl, ?_, ?_⟩
  · unfold step?; rw [hc]; simp [hs]
  · exact (List.append_nil _).symm
  · simp

theorem step?_selected (P : Platform H) (index : Nat) (hc : s.cursor = some selected)
    (hs : s.seen = false) :
    ∃ t, step? P selected index s = some t ∧ t.cursor = P.reach? .nextSibling selected ∧
      t.seen = true ∧ GrownBy index s t [none] 0 := by
  refine ⟨({ s with ordered := s.ordered.push index, seen := true } : Sweep H).advance P selected,
    ?_, Draft.ask_fst .., rfl, Draft.outline_ask .., ?_, Draft.counter_ask .., ?_, ?_⟩
  · unfold step?; rw [hc]; simp [hs]
  · exact (Draft.nextId_ask ..).trans (Int.add_zero _).symm
  · exact Array.toList_push
  · exact ⟨fun _ => .inr List.mem_cons_self, fun _ => rfl⟩

theorem step?_refused (P : Platform H) (index : Nat) {h : H} (hc : s.cursor = some h)
    (hne : h ≠ selected) (hr : s.draft.counter.remaining = 0) :
    ∃ t, step? P selected index s = some t ∧ t.cursor = none ∧ GrownBy index s t [] 1 := by
  have hf : s.draft.counter.tryIncrement.1 = false := by rw [Counter.tryIncrement_fst, hr]; rfl
  refine ⟨{ s with draft := s.draft.tryIncrement.2, cursor := none }, ?_, rfl, rfl,
    (Int.add_zero _).symm, rfl, ?_, ?_⟩
  · unfold step?; rw [hc]; simp [hne, Draft.tryIncrement, hf]
  · exact (List.append_nil _).symm
  · simp

theorem step?_admitted (P : Platform H) (index : Nat) {h : H} (hc : s.cursor = some h)
    (hne : h ≠ selected) (hr : 0 < s.draft.counter.remaining) :
    ∃ t, step? P selected index s = some t ∧ t.cursor = P.reach? .nextSibling h ∧
      t.seen = s.seen ∧ GrownBy index s t [some h] 0 := by
  have ht : s.draft.counter.tryIncrement.1 = true := by
    rw [Counter.tryIncrement_fst]; exact decide_eq_true hr
  let d := (s.draft.tryIncrement.2.add h).2
  refine ⟨({ s with draft := d, ordered := s.ordered.push s.draft.outline.size } :
      Sweep H).advance P h, ?_, Draft.ask_fst .., rfl, Draft.outline_ask ..,
    Draft.nextId_ask .., Draft.counter_ask .., Array.toList_push, ?_⟩
  · unfold step?; rw [hc]; simp only [hne, if_false, Draft.tryIncrement, ht]; rfl
  · show s.seen = true ↔ _
    simp

/-- With enough steps, the sweep takes these slots with so many refused requests. -/
def Takes (P : Platform H) (selected : H) (index : Nat) (s : Sweep H) (slots : List (Option H))
    (refused : Nat) : Prop :=
  ∃ t, GrownBy index s t slots refused ∧
    ∀ n, s.measure ≤ n → runSteps (step? P selected index) n s = t

theorem takes_nil (hc : s.cursor = none) : Takes P selected index s [] 0 :=
  ⟨s, ⟨rfl, (Int.add_zero _).symm, rfl, (List.append_nil _).symm, by simp⟩,
    fun n _ => runSteps_none (step?_finished hc) n⟩

theorem Takes.step {t : Sweep H} {ss ts : List (Option H)} {k l : Nat}
    (hst : step? P selected index s = some t) (hg : GrownBy index s t ss k)
    (hlt : t.measure < s.measure) (h : Takes P selected index t ts l) :
    Takes P selected index s (ss ++ ts) (k + l) := by
  obtain ⟨u, hg', hr⟩ := h
  refine ⟨u, hg.trans hg', fun n hn => ?_⟩
  obtain ⟨n, rfl⟩ : ∃ m, n = m + 1 := ⟨n - 1, by omega⟩
  rw [runSteps_some hst]
  exact hr n (by omega)

theorem exists_takes (P : Platform H) (selected : H) (index : Nat) (s : Sweep H) :
    ∃ slots k, Sweeps P selected s.draft.counter.remaining s.seen s.cursor slots k ∧
      Takes P selected index s slots k := by
  induction hm : s.measure using Nat.strongRecOn generalizing s with
  | ind m ih =>
  match hc : s.cursor with
  | none => exact ⟨[], 0, .finished _ _, takes_nil hc⟩
  | some h =>
  have hs := measure_some hc
  by_cases he : h = selected
  · subst he
    match hb : s.seen with
    | true =>
      obtain ⟨t, hst, htc, hg⟩ := step?_again P index hc hb
      have ht := measure_none htc
      exact ⟨[], 0, .again _, .step hst hg (by rw [hs, hb]; simp; omega) (takes_nil htc)⟩
    | false =>
      obtain ⟨t, hst, htc, htb, hg⟩ := step?_selected P index hc hb
      have hr : t.draft.counter.remaining = s.draft.counter.remaining := by rw [hg.counter]; rfl
      have hlt : t.measure < s.measure := by
        have := measure_le_of_remaining t
        rw [htb, if_pos rfl] at this
        rw [hs, hb, if_neg (by decide)]
        omega
      obtain ⟨ts, k, h1, h2⟩ := ih t.measure (by omega) t rfl
      rw [htc, htb, hr] at h1
      refine ⟨none :: ts, k, .selected h1, ?_⟩
      have := h2.step hst hg hlt
      rwa [Nat.zero_add] at this
  · rcases Nat.eq_zero_or_pos s.draft.counter.remaining with hr0 | hr0
    · obtain ⟨t, hst, htc, hg⟩ := step?_refused P index hc he hr0
      have ht := measure_none htc
      rw [hr0]
      exact ⟨[], 1, .refused he, .step hst hg (by rw [hs]; split <;> omega) (takes_nil htc)⟩
    · obtain ⟨t, hst, htc, htb, hg⟩ := step?_admitted P index hc he hr0
      have hr : t.draft.counter.remaining = s.draft.counter.remaining - 1 := by
        rw [hg.counter, Counter.remaining_spend]; rfl
      have hlt : t.measure < s.measure := by
        have := measure_le_of_remaining t
        rw [htb] at this
        rw [hs]
        omega
      obtain ⟨ts, k, h1, h2⟩ := ih t.measure (by omega) t rfl
      rw [htc, htb, hr] at h1
      have h3 := Sweeps.admitted he h1
      rw [show s.draft.counter.remaining - 1 + 1 = s.draft.counter.remaining by omega] at h3
      refine ⟨some h :: ts, k, h3, ?_⟩
      have := h2.step hst hg hlt
      rwa [Nat.zero_add] at this

end Sweep

/-- The selected element below its parent and among the siblings that a sweep takes. -/
theorem Draft.exists_sweeps [DecidableEq H] (P : Platform H) {d : Draft H} {index parent : Nat}
    {selected above : H} (hp : d.outline.parent? index = some parent)
    (hs : d.outline.handles[index]? = some selected)
    (ha : d.outline.handles[parent]? = some above) :
    ∃ slots k,
      Sweeps P selected d.counter.remaining false (P.reach? .firstChild above) slots k ∧
      (d.addSiblings P index).outline = (d.outline.addAll d.nextId (newcomers slots)).adopt parent
        (positions index d.outline.size (filled slots)).toArray ∧
      (d.addSiblings P index).counter = d.counter.spend ((newcomers slots).length + k) := by
  let s : Sweep H :=
    { draft := (d.ask P .firstChild above).2, cursor := (d.ask P .firstChild above).1 }
  have ho : s.draft.outline = d.outline := Draft.outline_ask ..
  have hi : s.draft.nextId = d.nextId := Draft.nextId_ask ..
  have hc : s.draft.counter = d.counter := Draft.counter_ask ..
  obtain ⟨slots, k, h, t, hg, hr⟩ := s.exists_takes P selected index
  have hrun : Sweep.run P selected index s = t := by
    refine hr _ ?_
    have := s.measure_le_of_remaining
    rw [Sweep.allowance]
    split at this <;> omega
  have ha : d.addSiblings P index = t.draft.adopt parent (t.children index) := by
    unfold Draft.addSiblings
    rw [hp]
    simp only [hs, ha]
    rw [← hrun]
  refine ⟨slots, k, ?_, ?_, ?_⟩
  · rw [hc, show s.cursor = P.reach? .firstChild above from Draft.ask_fst ..] at h
    exact h
  · have hch : t.children index = (positions index d.outline.size (filled slots)).toArray := by
      have hord : t.ordered.toList = positions index d.outline.size slots := by
        rw [hg.ordered, ho]; rfl
      have hseen : t.seen = true ↔ none ∈ slots := by
        rw [hg.seen]; exact or_iff_right Bool.false_ne_true
      apply Array.toList_inj.mp
      unfold Sweep.children filled
      by_cases hm : none ∈ slots
      · rw [if_pos hm, if_pos (hseen.mpr hm), hord]
      · rw [if_neg hm, if_neg (fun e => hm (hseen.mp e)), positions_append, Array.toList_push, hord]
        rfl
    rw [ha, hch]
    show t.draft.outline.adopt _ _ = _
    rw [hg.outline, ho, hi]
  · rw [ha]
    show t.draft.counter = _
    rw [hg.counter, hc]

end UiConformance
