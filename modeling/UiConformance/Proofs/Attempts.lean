import Mathlib.Data.List.Induction
import UiConformance.Proofs.Schedules
import UiConformance.Proofs.WellFormed

/-!
# Attempts

A population is a sequence of attempts to read a handle, whose outcomes may differ each time the
same handle is read: `Outline.PopulatedBy` says which attempts there are and what they make of an
outline. No attempt follows a successful one for the same element, the first success is what the
element gets, and an element without one ends with an empty bag.

The invariant of the parallel pass is `Filling.Tried`, that of the pass in order `Filling.Finished`;
each is kept by one attempt, hence by all.
-/

namespace UiConformance

variable {H : Type}

/-! ## Logs of attempts -/

/-- A reading that was asked for: of which element, of which handle, and what came of it. -/
structure Attempt (H : Type) where
  position : Nat
  handle : H
  outcome : Except PlatformError Reading

namespace Attempt

def on (as : List (Attempt H)) (i : Nat) : List (Except PlatformError Reading) :=
  (as.filter fun a => a.position = i).map outcome

/-- The first success among the attempts for one element. -/
def reading? (as : List (Attempt H)) (i : Nat) : Option Reading :=
  (on as i).findSome? Except.toOption

variable {as bs : List (Attempt H)} {a : Attempt H} {i : Nat}

theorem on_append : on (as ++ bs) i = on as i ++ on bs i := by
  simp [on]

theorem length_on : (on as i).length = (as.map position).count i := by
  rw [on, List.length_map, ← List.countP_eq_length_filter, List.count, List.countP_map]
  exact List.countP_congr fun a _ => by simp

theorem on_eq_nil_iff : on as i = [] ↔ i ∉ as.map position := by
  rw [← List.length_eq_zero_iff, length_on, List.count_eq_zero]

theorem reading?_append : reading? (as ++ bs) i = (reading? as i).or (reading? bs i) := by
  rw [reading?, on_append, List.findSome?_append]
  rfl

theorem reading?_singleton_self : reading? [a] a.position = a.outcome.toOption := by
  cases h : a.outcome <;> simp [reading?, on, h, Except.toOption]

theorem reading?_eq_none_of_notMem (h : i ∉ as.map position) : reading? as i = none := by
  rw [reading?, on_eq_nil_iff.mpr h]
  rfl

theorem reading?_snoc_of_ne (h : a.position ≠ i) : reading? (as ++ [a]) i = reading? as i := by
  rw [reading?_append, @reading?_eq_none_of_notMem _ [a] i (by simpa using Ne.symm h),
    Option.or_none]

theorem reading?_snoc_of_error {e : PlatformError} (h : a.outcome = .error e) :
    reading? (as ++ [a]) i = reading? as i := by
  by_cases hi : a.position = i
  · subst hi
    rw [reading?_append, reading?_singleton_self, h]
    exact Option.or_none
  · exact reading?_snoc_of_ne hi

theorem reading?_snoc_self (h : reading? as a.position = none) :
    reading? (as ++ [a]) a.position = a.outcome.toOption := by
  rw [reading?_append, h, reading?_singleton_self, Option.none_or]

theorem error_of_mem_on (h : reading? as i = none) {r : Except PlatformError Reading}
    (hr : r ∈ on as i) : ∃ e, r = .error e := by
  have hnone := List.findSome?_eq_none_iff.mp h r hr
  cases r with
  | error e => exact ⟨e, rfl⟩
  | ok r => cases hnone

end Attempt

/-- Read one after another after `past`, the handles answer as the attempts say. -/
def Platform.Answers (P : Platform H) : List H → List (Attempt H) → Prop
  | _, [] => True
  | past, a :: as => P.read past a.handle = a.outcome ∧ P.Answers (a.handle :: past) as

/-- The handles read after the attempts, the latest first. -/
def Attempt.pastAfter (past : List H) (as : List (Attempt H)) : List H :=
  (as.map Attempt.handle).reverse ++ past

theorem Attempt.pastAfter_snoc (past : List H) (as : List (Attempt H)) (a : Attempt H) :
    Attempt.pastAfter past (as ++ [a]) = a.handle :: Attempt.pastAfter past as := by
  simp [Attempt.pastAfter]

theorem Platform.Answers.snoc {P : Platform H} {past : List H} {as : List (Attempt H)}
    (h : P.Answers past as) {a : Attempt H}
    (ha : P.read (Attempt.pastAfter past as) a.handle = a.outcome) :
    P.Answers past (as ++ [a]) := by
  induction as generalizing past with
  | nil => exact ⟨ha, trivial⟩
  | cons b as ih =>
    refine ⟨h.1, ih h.2 ?_⟩
    simpa [Attempt.pastAfter] using ha

namespace ElementNode

/-- The element with what was read of it, if anything was. -/
def withReading (n : ElementNode) : Option Reading → ElementNode
  | some r => n.populate r.controlType r.patterns r.properties
  | none => n

/-- The element with what was read of it, without patterns and properties if nothing was. -/
def settle (n : ElementNode) : Option Reading → ElementNode
  | some r => n.populate r.controlType r.patterns r.properties
  | none => n.populate n.controlType [] .empty

variable (n : ElementNode) (r : Option Reading)

theorem isPopulated_settle : (n.settle r).isPopulated = true := by
  cases r <;> rfl

theorem isPopulated_withReading (h : n.isPopulated = false) :
    (n.withReading r).isPopulated = r.isSome := by
  cases r with
  | none => exact h
  | some r => rfl

end ElementNode

/-! ## What a population does -/

/-- The attempts `as`, made after the readings `past`, are those that the filling remembers. -/
structure Filling.Logs (P : Platform H) (o : Outline H) (past : List H) (as : List (Attempt H))
    (f : Filling H) : Prop where
  answers : P.Answers past as
  past : f.past = Attempt.pastAfter past as
  handles : ∀ a ∈ as, o.handles[a.position]? = some a.handle

/-- Two attempts where there is a parallel pass, one where there is none. -/
def Attempt.patience (order : Option (List Nat)) : Nat := if order.isSome then 2 else 1

/-- `f` is the outline `o` populated by the attempts `early` of a parallel pass in the given order,
if there is one, and the attempts `late` of the pass after it. -/
structure Outline.PopulatedBy (o : Outline H) (P : Platform H) (past : List H)
    (order : Option (List Nat)) (early late : List (Attempt H)) (f : Filling H) : Prop
    extends Filling.Logs P o past (early ++ late) f where
  /-- The parallel pass asks for every element, whatever came of the attempts before. -/
  early_positions : early.map Attempt.position = order.getD []
  /-- The pass after it asks, in order, for the elements that nothing was read of. -/
  late_positions : late.map Attempt.position =
    (List.range o.size).filter fun i => (Attempt.reading? early i).isNone
  links : o.tree.SameLinks f.tree
  populated : ∀ i n, f.tree.node? i = some n → n.isPopulated = true
  node? : ∀ i n, o.tree.node? i = some n →
    f.tree.node? i = some (n.settle (Attempt.reading? (early ++ late) i))
  /-- The elements that are counted are those whose attempts all failed. -/
  unpopulated : f.unpopulated =
    (List.range o.size).countP fun i => (Attempt.reading? (early ++ late) i).isNone
  asked : ∀ i < o.size, Attempt.on (early ++ late) i ≠ []
  length_le : ∀ i, (Attempt.on (early ++ late) i).length ≤ Attempt.patience order
  /-- An element is given up only after all its attempts. -/
  length_eq : ∀ i < o.size, Attempt.reading? (early ++ late) i = none →
    (Attempt.on (early ++ late) i).length = Attempt.patience order
  /-- Only an attempt that failed is followed by another for the same element. -/
  failed : ∀ i, ∀ r ∈ (Attempt.on (early ++ late) i).dropLast, ∃ e, r = .error e

namespace Filling

variable {P : Platform H} {o : Outline H} {past : List H} {f f' : Filling H}
  {as early late : List (Attempt H)} {i k : Nat}

theorem Logs.snoc (hf : Logs P o past as f) {a : Attempt H}
    (hh : o.handles[a.position]? = some a.handle) (hr : P.read f.past a.handle = a.outcome)
    (hpast : f'.past = a.handle :: f.past) : Logs P o past (as ++ [a]) f' := by
  refine ⟨hf.answers.snoc ?_, ?_, fun b hb => ?_⟩
  · rw [← hf.past, hr]
  · rw [hpast, hf.past, Attempt.pastAfter_snoc]
  · rcases List.mem_append.mp hb with hb | hb
    · exact hf.handles b hb
    · obtain rfl := List.mem_singleton.mp hb
      exact hh

/-! ### The parallel pass -/

/-- After the attempts `as`, whose failures do not matter yet. -/
structure Tried (P : Platform H) (o : Outline H) (past : List H) (as : List (Attempt H))
    (f : Filling H) : Prop extends Logs P o past as f where
  node? : ∀ i n, o.tree.node? i = some n →
    f.tree.node? i = some (n.withReading (Attempt.reading? as i))
  unpopulated : f.unpopulated = 0

theorem tried_start (P : Platform H) (o : Outline H) (past : List H) :
    Tried P o past [] { tree := o.tree, past } :=
  ⟨⟨trivial, rfl, fun _ h => by cases h⟩, fun _ _ h => h, rfl⟩

theorem exists_handle (o : Outline H) (hi : i < o.size) : ∃ h, o.handles[i]? = some h :=
  ⟨_, Array.getElem?_eq_getElem (by rw [o.aligned]; exact hi)⟩

theorem Tried.attempt (hf : Tried P o past as f) (hi : i < o.size)
    (hnew : i ∉ as.map Attempt.position) :
    ∃ a : Attempt H, a.position = i ∧
      Tried P o past (as ++ [a]) (Filling.attempt P o.handles f i) := by
  obtain ⟨h, hh⟩ := exists_handle o hi
  have hnone : Attempt.reading? as i = none := Attempt.reading?_eq_none_of_notMem hnew
  cases hr : P.read f.past h with
  | error e =>
    let a : Attempt H := ⟨i, h, .error e⟩
    rw [attempt_error hh hr]
    refine ⟨a, rfl, hf.snoc hh hr rfl, fun j n hn => ?_, hf.unpopulated⟩
    rw [Attempt.reading?_snoc_of_error rfl]
    exact hf.node? j n hn
  | ok r =>
    let a : Attempt H := ⟨i, h, .ok r⟩
    rw [attempt_ok hh hr]
    refine ⟨a, rfl, hf.snoc hh hr rfl, fun j n hn => ?_, hf.unpopulated⟩
    refine (ElementTree.node?_modify ..).trans ?_
    by_cases hj : i = j
    · subst hj
      have hread : Attempt.reading? (as ++ [a]) i = some r := Attempt.reading?_snoc_self hnone
      rw [if_pos rfl, hf.node? i n hn, hnone, hread]
      rfl
    · rw [if_neg hj, hf.node? j n hn, Attempt.reading?_snoc_of_ne hj]

theorem exists_tried (P : Platform H) (o : Outline H) (past : List H) {is : List Nat}
    (hnodup : is.Nodup) (hin : ∀ i ∈ is, i < o.size) :
    ∃ as, as.map Attempt.position = is ∧
      Tried P o past as (is.foldl (Filling.attempt P o.handles) { tree := o.tree, past }) := by
  induction is using List.reverseRecOn with
  | nil => exact ⟨[], rfl, tried_start P o past⟩
  | append_singleton is i ih =>
    obtain ⟨hnodup, -, hdisj⟩ := List.nodup_append.mp hnodup
    obtain ⟨as, hpos, hf⟩ := ih hnodup fun j hj => hin j (List.mem_append_left _ hj)
    have hnew : i ∉ as.map Attempt.position := by
      rw [hpos]
      exact fun hi => hdisj i hi i (List.mem_singleton_self i) rfl
    obtain ⟨a, ha, hf⟩ := hf.attempt (hin i (List.mem_append_right _ (List.mem_singleton_self i))) hnew
    refine ⟨as ++ [a], by rw [List.map_append, hpos, List.map_singleton, ha], ?_⟩
    rw [List.foldl_append]
    exact hf

/-! ### The pass in order -/

/-- The elements before `k` are settled by the attempts `early` and `late`, the others are as the
attempts `early` left them. -/
structure Finished (P : Platform H) (o : Outline H) (past : List H)
    (early late : List (Attempt H)) (k : Nat) (f : Filling H) : Prop
    extends Logs P o past (early ++ late) f where
  positions : late.map Attempt.position =
    (List.range k).filter fun i => (Attempt.reading? early i).isNone
  node?_of_lt : ∀ i < k, ∀ n, o.tree.node? i = some n →
    f.tree.node? i = some (n.settle (Attempt.reading? (early ++ late) i))
  node?_of_le : ∀ i, k ≤ i → ∀ n, o.tree.node? i = some n →
    f.tree.node? i = some (n.withReading (Attempt.reading? early i))
  unpopulated : f.unpopulated =
    (List.range k).countP fun i => (Attempt.reading? (early ++ late) i).isNone

theorem Tried.finished (hf : Tried P o past early f) : Finished P o past early [] 0 f := by
  refine ⟨?_, rfl, fun i hi => absurd hi (Nat.not_lt_zero i), fun i _ => hf.node? i,
    hf.unpopulated⟩
  rw [List.append_nil]
  exact hf.toLogs

namespace Finished

theorem notMem_late (hf : Finished P o past early late k f) (hi : k ≤ i) :
    i ∉ late.map Attempt.position := by
  rw [hf.positions]
  intro hmem
  have := List.mem_range.mp (List.mem_of_mem_filter hmem)
  omega

theorem reading?_of_le (hf : Finished P o past early late k f) (hi : k ≤ i) :
    Attempt.reading? (early ++ late) i = Attempt.reading? early i := by
  rw [Attempt.reading?_append, Attempt.reading?_eq_none_of_notMem (hf.notMem_late hi),
    Option.or_none]

/-- Nothing is asked for an element that something was read of. -/
theorem skip (hf : Finished P o past early late k f) {r : Reading}
    (hr : Attempt.reading? early k = some r) : Finished P o past early late (k + 1) f := by
  have hread := (hf.reading?_of_le (Nat.le_refl k)).trans hr
  refine ⟨hf.toLogs, ?_, fun i hi n hn => ?_, fun i hi => hf.node?_of_le i (by omega), ?_⟩
  · rw [hf.positions, List.range_succ, List.filter_append]
    simp [hr]
  · rcases Nat.lt_succ_iff_lt_or_eq.mp hi with hi | rfl
    · exact hf.node?_of_lt i hi n hn
    · rw [hf.node?_of_le i (Nat.le_refl i) n hn, hread, hr]
      rfl
  · rw [hf.unpopulated, List.range_succ, List.countP_append]
    simp [hread]

theorem ask (hf : Finished P o past early late k f) (hnone : Attempt.reading? early k = none)
    {a : Attempt H} (ha : a.position = k) (hlogs : Logs P o past (early ++ (late ++ [a])) f')
    (hsettled : ∀ n, o.tree.node? k = some n →
      f'.tree.node? k = some (n.settle a.outcome.toOption))
    (hother : ∀ i, i ≠ k → f'.tree.node? i = f.tree.node? i)
    (hcount : f'.unpopulated = f.unpopulated + if a.outcome.toOption.isNone then 1 else 0) :
    Finished P o past early (late ++ [a]) (k + 1) f' := by
  have hself : Attempt.reading? (early ++ (late ++ [a])) k = a.outcome.toOption := by
    subst ha
    rw [← List.append_assoc]
    exact Attempt.reading?_snoc_self ((hf.reading?_of_le (Nat.le_refl _)).trans hnone)
  have hrest : ∀ i, i ≠ k →
      Attempt.reading? (early ++ (late ++ [a])) i = Attempt.reading? (early ++ late) i :=
    fun i hi => by
      rw [← List.append_assoc]
      exact Attempt.reading?_snoc_of_ne (by rw [ha]; exact Ne.symm hi)
  refine ⟨hlogs, ?_, fun i hi n hn => ?_, fun i hi n hn => ?_, ?_⟩
  · rw [List.map_append, hf.positions, List.range_succ, List.filter_append]
    simp [hnone, ha]
  · rcases Nat.lt_succ_iff_lt_or_eq.mp hi with hi | rfl
    · rw [hother i (by omega), hrest i (by omega)]
      exact hf.node?_of_lt i hi n hn
    · rw [hself]
      exact hsettled n hn
  · rw [hother i (by omega)]
    exact hf.node?_of_le i (by omega) n hn
  · have hbefore : (List.range k).countP
          (fun i => (Attempt.reading? (early ++ (late ++ [a])) i).isNone) = f.unpopulated := by
      rw [hf.unpopulated]
      refine List.countP_congr fun i hi => ?_
      have hi := List.mem_range.mp hi
      rw [hrest i (by omega)]
    rw [hcount, List.range_succ, List.countP_append, hbefore, List.countP_singleton, hself]

theorem step (fresh : o.Unread) (hf : Finished P o past early late k f) (hk : k < o.size) :
    ∃ late', Finished P o past early late' (k + 1) (Filling.finish P o.handles f k) := by
  obtain ⟨h, hh⟩ := exists_handle o hk
  obtain ⟨n, hn⟩ := ElementTree.exists_node? hk
  have hnode := hf.node?_of_le k (Nat.le_refl k) n hn
  have hpop := n.isPopulated_withReading (Attempt.reading? early k) (fresh k n hn)
  cases hr : Attempt.reading? early k with
  | some r =>
    rw [hr] at hpop
    rw [finish_populated hnode (by rw [hr, hpop]; rfl)]
    exact ⟨late, hf.skip hr⟩
  | none =>
    rw [hr] at hnode
    have hunread : n.isPopulated = false := fresh k n hn
    have hmodified : ∀ (t : ElementTree) (g : ElementNode → ElementNode) (m : ElementNode),
        t = f.tree.modify k g → o.tree.node? k = some m → t.node? k = some (g m) := by
      rintro t g m rfl hm
      obtain rfl := Option.some.inj (hm.symm.trans hn)
      rw [ElementTree.node?_modify, if_pos rfl, hnode]
      rfl
    cases hread : P.read f.past h with
    | ok r =>
      refine ⟨late ++ [⟨k, h, .ok r⟩], hf.ask hr rfl ?_ (fun m hm => ?_)
        (fun i hi => node?_finish_of_ne P o.handles f hi) ?_⟩
      all_goals rw [finish_ok hnode hunread hh hread]
      · rw [← List.append_assoc]
        exact hf.snoc hh hread rfl
      · exact hmodified _ _ m rfl hm
      · rfl
    | error e =>
      refine ⟨late ++ [⟨k, h, .error e⟩], hf.ask hr rfl ?_ (fun m hm => ?_)
        (fun i hi => node?_finish_of_ne P o.handles f hi) ?_⟩
      all_goals rw [finish_error hnode hunread hh hread]
      · rw [← List.append_assoc]
        exact hf.snoc hh hread rfl
      · exact hmodified _ _ m rfl hm
      · rfl

end Finished

theorem Tried.exists_finished (fresh : o.Unread) (hf : Tried P o past early f) :
    ∀ k ≤ o.size, ∃ late, Finished P o past early late k
      ((List.range k).foldl (Filling.finish P o.handles) f)
  | 0, _ => ⟨[], hf.finished⟩
  | k + 1, hk => by
    obtain ⟨late, hf⟩ := Tried.exists_finished fresh hf k (by omega)
    rw [List.range_succ, List.foldl_append]
    exact hf.step fresh hk

end Filling

/-! ## Both passes -/

/-- A parallel pass leaves out no element and asks for none twice. -/
def Outline.Covers (o : Outline H) (order : Option (List Nat)) : Prop :=
  ∀ is, order = some is → is.Perm (List.range o.size)

namespace Outline.Covers

variable {o : Outline H} {order : Option (List Nat)} {i : Nat}

theorem nodup (h : o.Covers order) : (order.getD []).Nodup := by
  cases order with
  | none => exact List.nodup_nil
  | some is => exact (h is rfl).nodup_iff.mpr List.nodup_range

theorem lt_size (h : o.Covers order) (hi : i ∈ order.getD []) : i < o.size := by
  cases order with
  | none => cases hi
  | some is => exact List.mem_range.mp ((h is rfl).mem_iff.mp hi)

theorem count_lt_patience (h : o.Covers order) (i : Nat) :
    (order.getD []).count i < Attempt.patience order := by
  cases order with
  | none => exact Nat.one_pos
  | some is => exact Nat.lt_succ_of_le (List.nodup_iff_count_le_one.mp h.nodup i)

theorem count_succ_eq_patience (h : o.Covers order) (hi : i < o.size) :
    (order.getD []).count i + 1 = Attempt.patience order := by
  cases order with
  | none => rfl
  | some is =>
    have hmem : i ∈ is := (h is rfl).mem_iff.mpr (List.mem_range.mpr hi)
    have hone : is.count i = 1 := List.count_eq_one_of_mem h.nodup hmem
    rw [Option.getD_some, hone]
    rfl

end Outline.Covers

namespace Filling.Finished

variable {P : Platform H} {o : Outline H} {past : List H} {f : Filling H}
  {early late : List (Attempt H)} {i : Nat}

theorem mem_late_iff (hf : Finished P o past early late o.size f) :
    i ∈ late.map Attempt.position ↔ i < o.size ∧ Attempt.reading? early i = none := by
  rw [hf.positions, List.mem_filter, List.mem_range, Option.isNone_iff_eq_none]

theorem nodup_late (hf : Finished P o past early late o.size f) :
    (late.map Attempt.position).Nodup := by
  rw [hf.positions]
  exact List.nodup_range.filter _

theorem length_on_late_le (hf : Finished P o past early late o.size f) (i : Nat) :
    (Attempt.on late i).length ≤ 1 := by
  rw [Attempt.length_on]
  exact List.nodup_iff_count_le_one.mp hf.nodup_late i

theorem asked (hf : Finished P o past early late o.size f) (hi : i < o.size) :
    Attempt.on (early ++ late) i ≠ [] := by
  rw [Attempt.on_append]
  intro hnil
  obtain ⟨hearly, hlate⟩ := List.append_eq_nil_iff.mp hnil
  have hnone : Attempt.reading? early i = none :=
    Attempt.reading?_eq_none_of_notMem (Attempt.on_eq_nil_iff.mp hearly)
  exact Attempt.on_eq_nil_iff.mp hlate (hf.mem_late_iff.mpr ⟨hi, hnone⟩)

theorem failed (hf : Finished P o past early late o.size f)
    (hearly : (early.map Attempt.position).Nodup) {r : Except PlatformError Reading}
    (hr : r ∈ (Attempt.on (early ++ late) i).dropLast) : ∃ e, r = .error e := by
  rw [Attempt.on_append] at hr
  have hle := hf.length_on_late_le i
  match hlate : Attempt.on late i with
  | [] =>
    have hone : (Attempt.on early i).length ≤ 1 := by
      rw [Attempt.length_on]
      exact List.nodup_iff_count_le_one.mp hearly i
    have hnil : (Attempt.on early i).dropLast = [] := by
      rw [← List.length_eq_zero_iff, List.length_dropLast]
      omega
    rw [hlate, List.append_nil, hnil] at hr
    cases hr
  | [x] =>
    have hmem : i ∈ late.map Attempt.position := by
      by_contra hnot
      rw [Attempt.on_eq_nil_iff.mpr hnot] at hlate
      cases hlate
    rw [hlate, List.dropLast_concat] at hr
    exact Attempt.error_of_mem_on (hf.mem_late_iff.mp hmem).2 hr
  | _ :: _ :: _ =>
    rw [hlate] at hle
    simp at hle

end Filling.Finished

namespace Outline

variable {o : Outline H} {order : Option (List Nat)}

theorem exists_populatedBy (P : Platform H) (fresh : o.Unread) (past : List H)
    (horder : o.Covers order) :
    ∃ early late, o.PopulatedBy P past order early late (o.populate P past order) := by
  obtain ⟨early, hearly, htried⟩ :=
    Filling.exists_tried P o past horder.nodup fun i hi => horder.lt_size hi
  obtain ⟨late, hf⟩ := htried.exists_finished fresh o.size (Nat.le_refl _)
  have hlinks := o.sameLinks_populate P past order
  have hnode : ∀ i n, o.tree.node? i = some n → (o.populate P past order).tree.node? i =
      some (n.settle (Attempt.reading? (early ++ late) i)) := fun i n hn =>
    hf.node?_of_lt i (ElementTree.lt_size_of_node? hn) n hn
  have hlen : ∀ i, (Attempt.on (early ++ late) i).length =
      (order.getD []).count i + (Attempt.on late i).length := fun i => by
    rw [Attempt.on_append, List.length_append, Attempt.length_on, hearly]
  refine ⟨early, late, hf.toLogs, hearly, hf.positions, hlinks,
    fun i n hn => ?_, hnode, hf.unpopulated, fun i hi => hf.asked hi, fun i => ?_,
    fun i hi hnone => ?_, fun i r hr => hf.failed (by rw [hearly]; exact horder.nodup) hr⟩
  · have hi : i < o.tree.size := by
      have := ElementTree.lt_size_of_node? hn
      rwa [hlinks.size] at this
    obtain ⟨m, hm⟩ := ElementTree.exists_node? hi
    obtain rfl := Option.some.inj (hn.symm.trans (hnode i m hm))
    exact ElementNode.isPopulated_settle _ _
  · have h1 := horder.count_lt_patience i
    have h2 := hf.length_on_late_le i
    rw [hlen]
    omega
  · rw [Attempt.reading?_append] at hnone
    have hmem := hf.mem_late_iff.mpr ⟨hi, (Option.or_eq_none_iff.mp hnone).1⟩
    rw [hlen, Attempt.length_on, List.count_eq_one_of_mem hf.nodup_late hmem,
      horder.count_succ_eq_patience hi]

end Outline

/-! ## Walks -/

namespace Walker

theorem covers_readOrder (w : Walker H) {s : Schedule} (hs : s.Fair) (o : Outline H) :
    o.Covers (w.readOrder s o.size) := by
  intro is his
  unfold readOrder at his
  split at his
  · cases his
    exact (hs o.size).1
  · cases his

variable [DecidableEq H]

/-- A walk populates the outline that it drew. -/
theorem populatedBy_walkUnder {w : Walker H} {s : Schedule} (hs : s.Fair) {selected : H}
    {scan : ScanTree} {after : Walker H} {journal : Journal}
    (h : w.walkUnder s selected = (.ok scan, after, journal)) :
    ∃ c o m k early late f, w.Draws selected scan after c o m k ∧
      o.PopulatedBy w.platform w.past (w.readOrder s o.size) early late f ∧
      scan.tree = f.tree ∧ scan.unpopulated = f.unpopulated ∧ after.past = f.past := by
  cases hr : w.runnerNeeded with
  | error e =>
    rw [walkUnder_error hr] at h
    cases h
  | ok r =>
    obtain ⟨scan', after', journal', c, o, m, k, hw, hd, htree, hcount, hpast⟩ :=
      exists_draws hr s selected
    rw [hw] at h
    obtain ⟨rfl, rfl, -⟩ : scan' = scan ∧ after' = after ∧ journal' = journal := by
      simpa using h
    obtain ⟨early, late, hp⟩ := Outline.exists_populatedBy w.platform hd.shapes.unread w.past
      (w.covers_readOrder hs o)
    exact ⟨c, o, m, k, early, late, _, hd, hp, htree, hcount, hpast⟩

/-- Two siblings of which the first is busy once and the second can never be read, visited in
parallel from the last to the first. -/
def flaky : Walker Int where
  platform := Script.platform
    { children := [(1, [2, 3])]
      fault := fun call h => if call = "snapshot" ∧ h = 3 then some (.notAvailable "3") else none
      busy := [(2, 1)] }
  options := { mode := .live, parallel := true }
  counter := { bound := 10 }

theorem populatedBy_walkUnder_flaky :
    Schedule.Fair ⟨fun n => (List.range n).reverse, List.range⟩ ∧
    ∃ scan after journal, flaky.walkUnder ⟨fun n => (List.range n).reverse, List.range⟩ 1 =
        (.ok scan, after, journal) ∧
      scan.tree.size = 3 ∧ scan.unpopulated = 1 ∧ after.past = [3, 2, 1, 2, 3] ∧
      ∃ c o m k early late f, flaky.Draws 1 scan after c o m k ∧
        o.PopulatedBy flaky.platform [] (some (List.range o.size).reverse) early late f ∧
        scan.tree = f.tree ∧ scan.unpopulated = f.unpopulated ∧ after.past = f.past := by
  have hs : Schedule.Fair ⟨fun n => (List.range n).reverse, List.range⟩ :=
    fun _ => ⟨List.reverse_perm _, .refl _⟩
  refine ⟨hs, _, _, _, rfl, rfl, rfl, rfl, ?_⟩
  exact populatedBy_walkUnder (w := flaky) hs rfl

end Walker

end UiConformance
