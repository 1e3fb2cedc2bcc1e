import Mathlib.Logic.Relation
import UiConformance.Proofs.History
import UiConformance.Proofs.Work

/-!
# Stages of a walk

After the ancestors are found a walk goes through stages: the ancestors are added one above the
other, the descent goes through the subtree, the sweep over the siblings. `Stage.Step` is one turn
of one of these loops. Every turn may have a platform of its own, so nothing is assumed of the
platform, not even that it answers the same call twice alike.

`Stage.Counts` ties the identifiers to what the budget admitted since the walk began. Every turn
keeps it, whatever phase it belongs to, and the bound of a budget lies below the largest 32-bit
word; so no number that a walk computes leaves the range of these words.
-/

namespace UiConformance

variable {H : Type}

inductive Stage (H : Type)
  /-- The ancestors that are still to be added above the element at `top`, the next one with the
  identifier `id`. -/
  | ascent (rest : List H) (top : Nat) (id : Int) (o : Outline H)
  | descent (d : Descent H)
  /-- The sweep over the children of the element at `parent`, one of which may be `selected`. -/
  | sweep (parent : Nat) (selected : H) (s : Sweep H)
  /-- All elements are there. -/
  | settled (d : Draft H)

/-! ## Steps -/

namespace Stage

section

variable [DecidableEq H]

/-- A turn of a walk from `selected`, with or without the context, whose counter is `c` once the
ancestors are counted. -/
inductive Step (selected : H) (context : Bool) (c : Counter) : Stage H → Stage H → Prop
  | ancestor (h : H) (rest : List H) (top : Nat) (id : Int) (o : Outline H) :
      Step selected context c (.ascent (h :: rest) top id o)
        (.ascent rest o.size (id - 1) ((o.add h id).link o.size top))
  | enter (P : Platform H) (top : Nat) (id : Int) (outline : Outline H) (notices : Array Notice) :
      Step selected context c (.ascent [] top id outline)
        (.descent (({ outline, counter := c, notices } : Draft H).opened P 0 selected))
  | descend (P : Platform H) {d e : Descent H} : d.step? P = some e →
      Step selected context c (.descent d) (.descent e)
  | settle (d : Draft H) : context = false ∨ d.beside? 0 = none →
      Step selected context c (.descent ⟨d, []⟩) (.settled d)
  | turn (P : Platform H) (d : Draft H) {parent : Nat} {h above : H} : context = true →
      d.beside? 0 = some (parent, h, above) →
      Step selected context c (.descent ⟨d, []⟩) (.sweep parent h (d.sweeping P above))
  | sweep (P : Platform H) (parent : Nat) {h : H} {s t : Sweep H} : s.step? P h 0 = some t →
      Step selected context c (.sweep parent h s) (.sweep parent h t)
  | adopt (parent : Nat) (h : H) (s : Sweep H) : s.cursor = none →
      Step selected context c (.sweep parent h s)
        (.settled (s.draft.adopt parent (s.children 0)))

/-- A walk from `selected` with these ancestors may come to the stage. -/
def Passes (selected : H) (context : Bool) (c : Counter) (ancestors : List H) (s : Stage H) :
    Prop :=
  Relation.ReflTransGen (Step selected context c)
    (.ascent ancestors 0 (-1) (Outline.spine selected [])) s

end

def draft? : Stage H → Option (Draft H)
  | ascent .. => none
  | descent d => some d.draft
  | sweep _ _ s => some s.draft
  | settled d => some d

end Stage

/-- The numbers of a draft that are kept in signed 32-bit words. -/
def Draft.words (d : Draft H) : List Int :=
  [d.nextId, d.counter.count, d.counter.attempts, d.counter.bound]

def Stage.words : Stage H → List Int
  | ascent _ _ id _ => [id]
  | descent d => d.draft.words
  | sweep _ _ s => s.draft.words
  | settled d => d.words

/-! ## What every turn keeps -/

namespace Counter

variable {c : Counter}

theorem attempts_spend_le (h : c.attempts ≤ Text.int32Max) (n : Nat) :
    (c.spend n).attempts ≤ Text.int32Max := by
  induction n generalizing c with
  | zero => exact h
  | succ n ih =>
    refine ih ?_
    rw [attempts_tryIncrement]
    exact Nat.min_le_right ..

end Counter

namespace Draft

/-- `e` comes from `d` by the admission of `m` elements, and of no more than the budget allows. -/
structure Gains (d e : Draft H) (m : Nat) : Prop where
  size : e.outline.size = d.outline.size + m
  nextId : e.nextId = d.nextId + m
  bound : e.counter.bound = d.counter.bound
  count : e.counter.count = d.counter.count + m
  le_remaining : m ≤ d.counter.remaining
  attempts : d.counter.attempts ≤ Text.int32Max → e.counter.attempts ≤ Text.int32Max

variable {d e : Draft H} {c : Counter} {a j m k : Nat}

/-- Requests are refused only where the admitted ones use the budget up. -/
theorem gains_of_spend (hsize : e.outline.size = d.outline.size + m)
    (hid : e.nextId = d.nextId + m) (hc : e.counter = d.counter.spend (m + k))
    (hm : m ≤ d.counter.remaining) (hk : k = 0 ∨ d.counter.remaining = m) : d.Gains e m where
  size := hsize
  nextId := hid
  bound := by rw [hc, Counter.bound_spend]
  count := by
    rw [hc, Counter.count_spend]
    omega
  le_remaining := hm
  attempts h := by
    rw [hc]
    exact Counter.attempts_spend_le h _

/-- The draft of a walk with `a` ancestors that admitted `j` elements since its counter was `c`. -/
structure Counts (c : Counter) (a j : Nat) (d : Draft H) : Prop where
  size : d.outline.size = a + 1 + j
  nextId : d.nextId = j + 1
  bound : d.counter.bound = c.bound
  count : d.counter.count = c.count + j
  count_le : d.counter.count ≤ c.bound
  attempts_le : d.counter.attempts ≤ Text.int32Max

theorem Counts.gain (h : d.Counts c a j) (hg : d.Gains e m) : e.Counts c a (j + m) where
  size := by rw [hg.size, h.size, Nat.add_assoc]
  nextId := by
    rw [hg.nextId, h.nextId]
    omega
  bound := hg.bound.trans h.bound
  count := by rw [hg.count, h.count, Nat.add_assoc]
  count_le := by
    have hle := hg.le_remaining
    have hcount := h.count_le
    have hbound := h.bound
    unfold Counter.remaining at hle
    rw [hg.count]
    omega
  attempts_le := hg.attempts h.attempts_le

theorem Counts.ask (h : d.Counts c a j) (P : Platform H) (n : Navigation) (x : H) :
    (d.ask P n x).2.Counts c a j where
  size := by rw [outline_ask, h.size]
  nextId := by rw [nextId_ask, h.nextId]
  bound := by rw [counter_ask, h.bound]
  count := by rw [counter_ask, h.count]
  count_le := by rw [counter_ask]; exact h.count_le
  attempts_le := by rw [counter_ask]; exact h.attempts_le

theorem Counts.adopt (h : d.Counts c a j) (parent : Nat) (children : Array Nat) :
    (d.adopt parent children).Counts c a j :=
  { h with size := (Outline.size_adopt ..).trans h.size }

end Draft

theorem Draft.GrownBy.gains {d e : Draft H} {as : List (Nat × H)} {k : Nat} (h : d.GrownBy e as k)
    (hle : as.length ≤ d.counter.remaining) (hk : k = 0 ∨ d.counter.remaining = as.length) :
    d.Gains e as.length :=
  gains_of_spend h.size_eq h.nextId h.counter hle hk

theorem Sweep.GrownBy.gains {index : Nat} {s t : Sweep H} {slots : List (Option H)} {k : Nat}
    (h : GrownBy index s t slots k) (hle : (newcomers slots).length ≤ s.draft.counter.remaining)
    (hk : k = 0 ∨ s.draft.counter.remaining = (newcomers slots).length) :
    s.draft.Gains t.draft (newcomers slots).length :=
  Draft.gains_of_spend h.size_eq h.nextId h.counter hle hk

theorem Descent.Turn.gains {P : Platform H} {d e : Descent H} (h : Turn P d e) :
    ∃ m, d.draft.Gains e.draft m := by
  cases h with
  | close d =>
    have hg : d.GrownBy d [] 0 := ⟨rfl, (Int.add_zero _).symm, rfl⟩
    exact ⟨_, hg.gains (Nat.zero_le _) (.inl rfl)⟩
  | refuse _ _ _ hr hg => exact ⟨_, hg.gains (Nat.zero_le _) (.inr hr)⟩
  | grant _ _ _ hr hg => exact ⟨_, hg.gains hr (.inl rfl)⟩

theorem Sweep.Turn.gains {selected : H} {index : Nat} {s t : Sweep H}
    (h : Turn selected index s t) : ∃ m, s.draft.Gains t.draft m := by
  cases h with
  | again _ _ _ hg => exact ⟨_, hg.gains (Nat.zero_le _) (.inl rfl)⟩
  | meet _ _ _ hg => exact ⟨_, hg.gains (Nat.zero_le _) (.inl rfl)⟩
  | refuse _ _ hr _ hg => exact ⟨_, hg.gains (Nat.zero_le _) (.inr hr)⟩
  | grant _ _ hr _ hg => exact ⟨_, hg.gains hr (.inl rfl)⟩

namespace Stage

/-- What is so at every stage of a walk with `a` ancestors: their identifiers go down from -1 by one
each, and those of the other elements go up from 1 by one for each unit of the budget. -/
def Counts (c : Counter) (a : Nat) : Stage H → Prop
  | ascent rest _ id o => ∃ k : Nat, k + rest.length = a ∧ o.size = k + 1 ∧ id = -1 - k
  | descent d => ∃ j, d.draft.Counts c a j
  | sweep _ _ s => ∃ j, s.draft.Counts c a j
  | settled d => ∃ j, d.Counts c a j

variable {c : Counter} {a : Nat} {s t : Stage H}

theorem Counts.exists_of_draft? (h : s.Counts c a) {d : Draft H} (hd : s.draft? = some d) :
    ∃ j, d.Counts c a j := by
  cases s with
  | ascent => cases hd
  | descent | sweep | settled =>
    obtain rfl := Option.some.inj hd
    exact h

variable [DecidableEq H] {selected : H} {context : Bool} {ancestors : List H}

theorem Step.counts (hc : c.count ≤ c.bound) (hattempts : c.attempts ≤ Text.int32Max)
    (h : Step selected context c s t) (hs : s.Counts c a) : t.Counts c a := by
  cases h with
  | ancestor x rest top id o =>
    obtain ⟨k, hk, hsize, rfl⟩ := hs
    refine ⟨k + 1, ?_, ?_, ?_⟩
    · rw [← hk, List.length_cons]
      omega
    · show ((o.add x _).tree.link _ _).size = _
      rw [ElementTree.size_link, ← hsize]
      exact Outline.size_add ..
    · omega
  | enter P top id o notices =>
    obtain ⟨k, hk, hsize, -⟩ := hs
    have hstart : ({ outline := o, counter := c, notices } : Draft H).Counts c a 0 :=
      ⟨by rw [hsize, ← hk]; rfl, rfl, rfl, rfl, hc, hattempts⟩
    exact ⟨0, hstart.ask P .firstChild selected⟩
  | descend P hd =>
    obtain ⟨j, hj⟩ := hs
    obtain ⟨m, hm⟩ := (Descent.turn_of_step? hd).gains
    exact ⟨j + m, hj.gain hm⟩
  | settle d => exact hs
  | turn P d hcontext hb =>
    obtain ⟨j, hj⟩ := hs
    exact ⟨j, hj.ask P .firstChild _⟩
  | sweep P parent hd =>
    obtain ⟨j, hj⟩ := hs
    obtain ⟨m, hm⟩ := (Sweep.turn_of_step? hd).gains
    exact ⟨j + m, hj.gain hm⟩
  | adopt parent x s hcursor =>
    obtain ⟨j, hj⟩ := hs
    exact ⟨j, hj.adopt parent (s.children 0)⟩

theorem counts_of_passes (hc : c.count ≤ c.bound) (hattempts : c.attempts ≤ Text.int32Max)
    (h : Passes selected context c ancestors s) : s.Counts c ancestors.length := by
  induction h with
  | refl => exact ⟨0, Nat.zero_add _, rfl, by simp⟩
  | tail _ hstep ih => exact hstep.counts hc hattempts ih

end Stage

/-! ## Range -/

/-- A signed 32-bit word holds the number. -/
def FitsInt32 (n : Int) : Prop := -(Text.int32Max : Int) - 1 ≤ n ∧ n ≤ Text.int32Max

theorem Draft.Counts.fits {c : Counter} {a j : Nat} {d : Draft H} (h : d.Counts c a j)
    (hlt : c.bound < Text.int32Max) : ∀ n ∈ d.words, FitsInt32 n := by
  obtain ⟨-, hid, hbound, hcount, hle, hattempts⟩ := h
  intro n hn
  simp only [words, List.mem_cons, List.not_mem_nil, or_false] at hn
  unfold FitsInt32
  rcases hn with rfl | rfl | rfl | rfl <;> omega

/-- The numbers of a stage are in range, for a budget with the bound `b` whose counter was `c` once
`a` ancestors were counted. -/
structure Stage.InRange (b : Int) (c : Counter) (a : Nat) (s : Stage H) : Prop where
  counts : s.Counts c a
  words : ∀ n ∈ s.words, FitsInt32 n
  nextId_le : ∀ d ∈ s.draft?, d.nextId ≤ b + 1 ∧ b + 1 ≤ Text.int32Max
  /-- An element is admitted only where this leaves the count within the bound. -/
  admits : ∀ d ∈ s.draft?, d.counter.tryIncrement.1 = true → (d.counter.count : Int) + 1 ≤ b

theorem Stage.Counts.inRange {b : Int} {c : Counter} {a : Nat} {s : Stage H} (h : s.Counts c a)
    (ha : a < 2 ^ 31) (hb : (c.bound : Int) = b) (hlt : c.bound < Text.int32Max) :
    s.InRange b c a where
  counts := h
  words := by
    cases s with
    | ascent rest top id o =>
      obtain ⟨k, hk, -, rfl⟩ := h
      have hmax : Text.int32Max = 2147483647 := rfl
      refine List.forall_mem_singleton.mpr ?_
      unfold FitsInt32
      omega
    | descent | sweep | settled =>
      obtain ⟨j, hj⟩ := h
      exact hj.fits hlt
  nextId_le d hd := by
    obtain ⟨j, hj⟩ := h.exists_of_draft? hd
    have hcount := hj.count
    have hle := hj.count_le
    rw [hj.nextId]
    omega
  admits d hd hadmitted := by
    obtain ⟨j, hj⟩ := h.exists_of_draft? hd
    have hbound := hj.bound
    rw [Counter.tryIncrement_fst, decide_eq_true_iff, Counter.remaining] at hadmitted
    omega

/-! ## Walks -/

namespace Stage

variable [DecidableEq H] {selected : H} {context : Bool} {c : Counter} {ancestors : List H}

theorem steps_runSteps {σ : Type} {step? : σ → Option σ} (stage : σ → Stage H)
    (hstep : ∀ s t, step? s = some t → Step selected context c (stage s) (stage t)) (n : Nat)
    (s : σ) :
    Relation.ReflTransGen (Step selected context c) (stage s) (stage (runSteps step? n s)) := by
  induction n generalizing s with
  | zero => exact .refl
  | succ n ih =>
    cases hs : step? s with
    | none => rw [runSteps_none hs]
    | some t =>
      rw [runSteps_some hs]
      exact .head (hstep s t hs) (ih t)

theorem Passes.addAncestors {hs : List H} {top : Nat} {id : Int} {o : Outline H}
    (h : Passes selected context c ancestors (.ascent hs top id o)) :
    ∃ id', Passes selected context c ancestors
      (.ascent [] (Outline.addAncestors hs top id o).1 id' (Outline.addAncestors hs top id o).2) := by
  induction hs generalizing top id o with
  | nil => exact ⟨id, h⟩
  | cons x hs ih => exact ih (h.tail (.ancestor x hs top id o))

theorem Passes.addSubtree {P : Platform H} {d : Draft H}
    (h : Passes selected context c ancestors (.descent (d.opened P 0 selected)))
    (hd : d.outline.handles[0]? = some selected) :
    Passes selected context c ancestors (.descent ⟨d.addSubtree P 0, []⟩) := by
  have hstep : ∀ s t, Descent.step? P s = some t →
      Step selected context c (.descent s) (.descent t) := fun s t => .descend P
  have hsteps := steps_runSteps .descent hstep (d.opened P 0 selected).measure
    (d.opened P 0 selected)
  have hend : runSteps (Descent.step? P) (d.opened P 0 selected).measure (d.opened P 0 selected) =
      ⟨d.addSubtree P 0, []⟩ := by
    rw [Draft.addSubtree_eq hd, ← Descent.stack_run P (d.opened P 0 selected)]
    rfl
  rw [hend] at hsteps
  exact Relation.ReflTransGen.trans h hsteps

theorem Passes.addSiblings {d : Draft H} (hcontext : context = true)
    (h : Passes selected context c ancestors (.descent ⟨d, []⟩)) (P : Platform H) :
    Passes selected context c ancestors (.settled (d.addSiblings P 0)) := by
  cases hb : d.beside? 0 with
  | none =>
    rw [Draft.addSiblings_none hb]
    exact h.tail (.settle d (.inr hb))
  | some b =>
    obtain ⟨parent, x, above⟩ := b
    have hstep : ∀ s t, Sweep.step? P x 0 s = some t →
        Step selected context c (.sweep parent x s) (.sweep parent x t) := fun s t =>
      .sweep P parent
    have hturn := h.tail (.turn P d hcontext hb)
    have hsteps := steps_runSteps (.sweep parent x) hstep (d.sweeping P above).allowance
      (d.sweeping P above)
    rw [Draft.addSiblings_some hb]
    exact (Relation.ReflTransGen.trans hturn hsteps).tail
      (.adopt parent x _ (Sweep.cursor_run P x 0 (d.sweeping P above)))

end Stage

namespace Walker

open Stage

variable [DecidableEq H]

theorem passes_opening (w : Walker H) (selected : H) (context : Bool) :
    Passes selected context (w.counter.charge (w.depth selected) 0)
      (ancestry w.platform selected).1
      (.descent ((w.opening selected).opened w.platform 0 selected)) := by
  have hstart : Passes selected context (w.counter.charge (w.depth selected) 0)
      (ancestry w.platform selected).1
      (.ascent (ancestry w.platform selected).1 0 (-1) (Outline.spine selected [])) := .refl
  obtain ⟨id, h⟩ := hstart.addAncestors
  exact h.tail (.enter w.platform _ id _ (w.opening selected).notices)

theorem handles_opening (w : Walker H) (selected : H) :
    (w.opening selected).outline.handles[0]? = some selected := by
  have hhandles := (Outline.isSpine_spine selected (ancestry w.platform selected).1).handles
  show (Outline.spine selected (ancestry w.platform selected).1).handles[0]? = some selected
  rw [← Array.getElem?_toList, hhandles]
  rfl

/-- The draft of a walk once its loops have ended. -/
def settled (w : Walker H) (selected : H) : Draft H :=
  let d := (w.opening selected).addSubtree w.platform 0
  if w.options.siblingContext then d.addSiblings w.platform 0 else d

theorem passes_settled (w : Walker H) (selected : H) :
    Passes selected w.options.siblingContext (w.counter.charge (w.depth selected) 0)
      (ancestry w.platform selected).1 (.settled (w.settled selected)) := by
  have hsubtree := (w.passes_opening selected w.options.siblingContext).addSubtree
    (w.handles_opening selected)
  unfold settled
  split
  · next hcontext => exact hsubtree.addSiblings hcontext w.platform
  · next hcontext =>
    exact hsubtree.tail (.settle _ (.inl (Bool.eq_false_iff.mpr hcontext)))

/-- The counter and the tree that a successful walk leaves are those of the draft. -/
def EndsIn (w : Walker H) (selected : H) (d : Draft H) : Prop :=
  ∀ s scan after journal, w.walkUnder s selected = (.ok scan, after, journal) →
    after.counter = d.counter ∧
      ∃ order, scan.tree = (d.outline.populate w.platform w.past order).tree

theorem endsIn_settled (w : Walker H) (selected : H) : w.EndsIn selected (w.settled selected) := by
  intro s scan after journal h
  cases hr : w.runnerNeeded with
  | error e =>
    rw [walkUnder_error hr] at h
    cases h
  | ok o =>
    have hadd := w.counter.tryAdd_charge (w.depth selected)
    unfold walkUnder at h
    rw [hr] at h
    simp only [depth] at hadd
    simp only [hadd] at h
    obtain ⟨rfl, rfl, -⟩ := h
    exact ⟨rfl, _, rfl⟩

/-- Whatever a budget was asked for, and whatever the platform answers, the numbers of a walk stay in
range at every stage. The walks of a walker pass through such stages. -/
theorem inRange_walk {b : Int} {c₀ : Counter} (hb : Counter.ofBound b = .ok c₀)
    (history : List Counter.Request) (selected : H) (context : Bool) {ancestors : List H}
    (ha : ancestors.length < 2 ^ 31) :
    let c := (c₀.after history).charge ancestors.length 0
    (∀ s, Passes selected context c ancestors s → s.InRange b c ancestors.length) ∧
      ∀ w : Walker H, w.counter = c₀.after history → w.options.siblingContext = context →
        (ancestry w.platform selected).1 = ancestors →
        Passes selected context c ancestors (.settled (w.settled selected)) ∧
          w.EndsIn selected (w.settled selected) := by
  intro c
  have htracks := ((Counter.tracks_ofBound hb).after history).charge ancestors.length 0
  have hbound : c.bound = c₀.bound := by rw [Counter.bound_charge, Counter.bound_after]
  refine ⟨fun s h => ?_, fun w hw hcontext hancestors => ⟨?_, w.endsIn_settled selected⟩⟩
  · have hcounts := counts_of_passes (htracks.count ▸ Nat.min_le_right ..)
      (htracks.attempts ▸ Nat.min_le_right ..) h
    exact hcounts.inRange ha (hbound ▸ Counter.bound_ofBound hb) htracks.bound_lt
  · have hdepth : w.depth selected = ancestors.length := by
      rw [depth, hancestors]
      exact Nat.min_eq_left (Nat.le_of_lt_succ ha)
    have hpasses := w.passes_settled selected
    rwa [hw, hcontext, hancestors, hdepth] at hpasses

/-- The largest bound, of which five are left: two ancestors and three more elements use it up. -/
theorem inRange_walk_restless :
    let w : Walker Nat :=
      { platform := restless
        options := { mode := .live }
        counter := (⟨2147483646, 0, 0⟩ : Counter).after [.one, .reset, .several 2147483641] }
    Counter.ofBound 2147483646 = .ok ⟨2147483646, 0, 0⟩ ∧ (ancestry restless 0).1 = [1, 2] ∧
      (w.settled 0).counter.count = 2147483646 ∧ (w.settled 0).nextId = 4 ∧
      (Stage.settled (w.settled 0)).InRange 2147483646 (w.counter.charge 2 0) 2 := by
  intro w
  have hb : Counter.ofBound 2147483646 = .ok ⟨2147483646, 0, 0⟩ := rfl
  have ha : [1, 2].length < 2 ^ 31 := by decide
  obtain ⟨hrange, hwalks⟩ :=
    inRange_walk hb [.one, .reset, .several 2147483641] 0 true ha
  exact ⟨hb, rfl, by decide, by decide, hrange _ (hwalks w rfl rfl rfl).1⟩

end Walker

end UiConformance
