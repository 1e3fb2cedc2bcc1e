import Mathlib.Data.List.Perm.Basic
import UiConformance.Proofs.Severity
import UiConformance.Walk.Walker

/-!
# Aggregates

A rule result is as severe as the most severe status that it was given, and keeps what it was told.
What holds rule results is as severe as the most severe one among them, however deep it lies. So it
does not matter in which order, or in which groups, results are added, and more results never make
anything less severe.
-/

namespace UiConformance

namespace ScanStatus

variable {ss ts : List ScanStatus} {s : ScanStatus}

/-- The most severe of some statuses, and no result where there are none. -/
def Worst (ss : List ScanStatus) (s : ScanStatus) : Prop :=
  (∀ t ∈ ss, t ≤ s) ∧ (s ∈ ss ∨ ss = [] ∧ s = .noResult)

theorem worst_aggregate (ss : List ScanStatus) : Worst ss (aggregate ss) := by
  refine ⟨fun t ht => le_aggregate ht, ?_⟩
  by_cases h : ss = []
  · exact .inr ⟨h, by rw [h]; rfl⟩
  · exact .inl (aggregate_mem h)

theorem aggregate_cons (s : ScanStatus) (ss : List ScanStatus) :
    aggregate (s :: ss) = ss.foldl max s := by
  have hmax : max noResult s = s := by cases s <;> rfl
  rw [aggregate, List.foldl_cons, hmax]

theorem aggregate_perm (h : ss.Perm ts) : aggregate ss = aggregate ts :=
  eq_of_forall_le_iff fun b => by simp only [aggregate_le_iff, h.mem_iff]

theorem aggregate_flatMap {α : Type} (f : α → List ScanStatus) (as : List α) :
    aggregate (as.flatMap f) = aggregate (as.map fun a => aggregate (f a)) :=
  eq_of_forall_le_iff fun b => by
    simp only [aggregate_le_iff, List.forall_mem_map, List.forall_mem_flatMap]

end ScanStatus

/-! ## One rule result -/

namespace RuleResult

/-- The result after calls that set its status, one after the other. -/
def setEach (r : RuleResult) (calls : List (ScanStatus × String)) : RuleResult :=
  calls.foldl (fun r c => r.setStatus c.1 c.2) r

theorem setEach_eq (r : RuleResult) (calls : List (ScanStatus × String)) :
    r.setEach calls =
      { r with
        status := (calls.map Prod.fst).foldl max r.status
        messages := r.messages ++ (calls.map Prod.snd).filter fun m => m != "" } := by
  unfold setEach
  induction calls generalizing r with
  | nil => simp
  | cons c calls ih =>
    rw [List.foldl_cons, ih]
    by_cases hm : c.2 = "" <;> simp [setStatus, hm]

/-- From a pass the calls raise the result to the most severe status, and every message that says
something is kept in its place. -/
def Raised (r : RuleResult) (calls : List (ScanStatus × String)) : Prop :=
  ScanStatus.Worst (.pass :: calls.map Prod.fst) (r.setEach calls).status ∧
    (r.setEach calls).messages = (calls.map Prod.snd).filter fun m => m != ""

theorem raised {r : RuleResult} (hs : r.status = .pass) (hm : r.messages = [])
    (calls : List (ScanStatus × String)) : r.Raised calls := by
  rw [Raised, setEach_eq, hs, hm]
  refine ⟨?_, List.nil_append _⟩
  rw [← ScanStatus.aggregate_cons]
  exact ScanStatus.worst_aggregate _

end RuleResult

/-! ## What holds rule results -/

/-- What holds rule results, and how more are added to it. -/
structure Holder (σ α : Type) where
  /-- The rule results at any depth. -/
  leaves : σ → List RuleResult
  status : σ → ScanStatus
  add : σ → α → σ
  /-- The rule results that an addition brings. -/
  brought : σ → α → List RuleResult

namespace Holder

variable {σ α : Type} {h : Holder σ α} {x : σ} {as bs : List α}

def addEach (h : Holder σ α) (x : σ) (as : List α) : σ := as.foldl h.add x

/-- The status is the most severe one of the leaves, and additions only bring more of these. -/
structure Aggregates (h : Holder σ α) : Prop where
  worst : ∀ x, ScanStatus.Worst ((h.leaves x).map RuleResult.status) (h.status x)
  /-- The leaves may be held in any order and in any groups. -/
  congr : ∀ x y, (h.leaves x).Perm (h.leaves y) → h.status x = h.status y
  gathers : ∀ x a, (h.leaves (h.add x a)).Perm (h.leaves x ++ h.brought x a)
  monotone : ∀ x a, h.status x ≤ h.status (h.add x a)
  permuted : ∀ x (as bs : List α), as.Perm bs →
    h.status (h.addEach x as) = h.status (h.addEach x bs)
  /-- The same rule results may come with other additions. -/
  regrouped : ∀ x (as bs : List α), (as.flatMap (h.brought x)).Perm (bs.flatMap (h.brought x)) →
    h.status (h.addEach x as) = h.status (h.addEach x bs)

section Laws

variable (hstatus : ∀ x, h.status x = .aggregate ((h.leaves x).map RuleResult.status))
  (hadd : ∀ x a, (h.leaves (h.add x a)).Perm (h.leaves x ++ h.brought x a))
  (hsame : ∀ x a, h.brought (h.add x a) = h.brought x)

include hstatus in
theorem status_congr {x y : σ} (hperm : (h.leaves x).Perm (h.leaves y)) :
    h.status x = h.status y := by
  rw [hstatus, hstatus]
  exact ScanStatus.aggregate_perm (hperm.map _)

include hadd hsame

theorem leaves_addEach (x : σ) (as : List α) :
    (h.leaves (h.addEach x as)).Perm (h.leaves x ++ as.flatMap (h.brought x)) := by
  unfold addEach
  induction as generalizing x with
  | nil => simp
  | cons a as ih =>
    have hrest := ih (h.add x a)
    rw [hsame] at hrest
    rw [List.foldl_cons, List.flatMap_cons, ← List.append_assoc]
    exact hrest.trans (.append_right _ (hadd x a))

include hstatus

theorem status_addEach_congr
    (hperm : (as.flatMap (h.brought x)).Perm (bs.flatMap (h.brought x))) :
    h.status (h.addEach x as) = h.status (h.addEach x bs) :=
  status_congr hstatus (((leaves_addEach hadd hsame x as).trans (hperm.append_left _)).trans
    (leaves_addEach hadd hsame x bs).symm)

theorem aggregates : h.Aggregates where
  worst x := by
    rw [hstatus]
    exact ScanStatus.worst_aggregate _
  congr x y := status_congr hstatus
  gathers := hadd
  monotone x a := by
    rw [hstatus, hstatus, ScanStatus.aggregate_le_iff]
    intro s hs
    apply ScanStatus.le_aggregate
    rw [((hadd x a).map _).mem_iff, List.map_append]
    exact List.mem_append_left _ hs
  permuted x as bs hp := status_addEach_congr hstatus hadd hsame (hp.flatMap_right _)
  regrouped x as bs hp := status_addEach_congr hstatus hadd hsame hp

end Laws

end Holder

/-! ## Results of a pairing, of an element, of a tree -/

namespace ScanResult

def holder : Holder ScanResult RuleResult where
  leaves := items
  status := status
  add := add
  brought _ r := [r]

theorem aggregates_holder : holder.Aggregates :=
  Holder.aggregates (fun _ => rfl) (fun _ _ => .refl _) fun _ _ => rfl

end ScanResult

namespace ScanResults

def holder : Holder ScanResults ScanResult where
  leaves r := r.items.flatMap ScanResult.items
  status := status
  add := add
  brought _ r := r.items

theorem status_eq (r : ScanResults) :
    r.status = .aggregate ((holder.leaves r).map RuleResult.status) := by
  show _ = ScanStatus.aggregate ((r.items.flatMap ScanResult.items).map _)
  rw [List.map_flatMap, ScanStatus.aggregate_flatMap]
  rfl

theorem aggregates_holder : holder.Aggregates :=
  Holder.aggregates status_eq
    (fun x a => by
      show (List.flatMap _ (x.items ++ [a])).Perm (x.items.flatMap _ ++ a.items)
      rw [List.flatMap_append, List.flatMap_singleton])
    fun _ _ => rfl

end ScanResults

namespace ScanTree

/-- A result that is added for one of the elements. -/
structure Addition where
  element : Nat
  result : ScanResult

/-- Adds the result for its element; nothing is added where there is none. -/
def add (t : ScanTree) (a : Addition) : ScanTree :=
  { t with results := t.results.modify a.element fun r => r.add a.result }

def holder : Holder ScanTree Addition where
  leaves t := t.results.toList.flatMap ScanResults.holder.leaves
  status := status
  add := add
  brought t a := if a.element < t.results.size then a.result.items else []

theorem status_eq (t : ScanTree) :
    t.status = .aggregate ((holder.leaves t).map RuleResult.status) := by
  show _ = ScanStatus.aggregate ((t.results.toList.flatMap ScanResults.holder.leaves).map _)
  rw [List.map_flatMap, ScanStatus.aggregate_flatMap]
  simp only [← ScanResults.status_eq]
  rfl

theorem leaves_add (t : ScanTree) (a : Addition) :
    (holder.leaves (t.add a)).Perm (holder.leaves t ++ holder.brought t a) := by
  show ((t.results.modify a.element _).toList.flatMap _).Perm
    (t.results.toList.flatMap _ ++ if a.element < t.results.size then a.result.items else [])
  rw [Array.toList_modify, ← Array.length_toList]
  generalize t.results.toList = rs
  by_cases hi : a.element < rs.length
  · -- the element's results stand between those of the elements before and after it
    have hsplit : rs = rs.take a.element ++ rs[a.element] :: rs.drop (a.element + 1) := by
      rw [List.getElem_cons_drop, List.take_append_drop]
    rw [if_pos hi, List.modify_eq_take_cons_drop hi]
    conv_rhs => rw [hsplit]
    simp only [List.flatMap_append, List.flatMap_cons, List.append_assoc]
    refine .append_left _ ?_
    refine ((ScanResults.aggregates_holder.gathers _ _).append_right _).trans ?_
    rw [List.append_assoc]
    exact .append_left _ List.perm_append_comm
  · rw [if_neg hi, List.append_nil, List.modify_eq_self (by omega)]

theorem aggregates_holder : holder.Aggregates :=
  Holder.aggregates status_eq leaves_add fun t a => by
    funext b
    show (if _ < (t.results.modify _ _).size then _ else _) = _
    rw [Array.size_modify]
    rfl

/-- The results of an element are those that were added for it, in their order. -/
theorem getElem?_addEach (t : ScanTree) (as : List Addition) (i : Nat) :
    (holder.addEach t as).results[i]? = t.results[i]?.map fun r =>
      ScanResults.holder.addEach r ((as.filter fun a => a.element == i).map Addition.result) := by
  unfold Holder.addEach
  induction as generalizing t with
  | nil => simp
  | cons a as ih =>
    rw [List.foldl_cons, ih]
    show (t.results.modify a.element _)[i]?.map _ = _
    rw [Array.getElem?_modify, List.filter_cons]
    by_cases ha : a.element = i
    · subst ha
      simp [Option.map_map]
      rfl
    · simp [ha]

/-- Nor do the elements depend on the order of the additions. -/
theorem status_element_perm (t : ScanTree) {as bs : List Addition} (h : as.Perm bs) (i : Nat) :
    ((holder.addEach t as).results[i]?).map ScanResults.status =
      ((holder.addEach t bs).results[i]?).map ScanResults.status := by
  rw [getElem?_addEach, getElem?_addEach, Option.map_map, Option.map_map]
  congr 1
  funext r
  exact ScanResults.aggregates_holder.permuted r _ _ ((h.filter _).map _)

end ScanTree

/-! ## The law -/

/-- A rule result is raised by what it is given; what holds rule results, at each of the three
levels, is as severe as the most severe one, whatever the order and grouping of what was added. -/
theorem raised_and_aggregates :
    (∀ (ruleId description : String) (calls : List (ScanStatus × String)),
      RuleResult.Raised { ruleId, description } calls) ∧
    (∀ (i : RuleInfo) (calls : List (ScanStatus × String)), (RuleResult.ofInfo i).Raised calls) ∧
    ScanResult.holder.Aggregates ∧ ScanResults.holder.Aggregates ∧ ScanTree.holder.Aggregates ∧
    ∀ (t : ScanTree) (as bs : List ScanTree.Addition), as.Perm bs → ∀ i : Nat,
      ((ScanTree.holder.addEach t as).results[i]?).map ScanResults.status =
        ((ScanTree.holder.addEach t bs).results[i]?).map ScanResults.status :=
  ⟨fun _ _ => RuleResult.raised rfl rfl, fun _ => RuleResult.raised rfl rfl,
    ScanResult.aggregates_holder, ScanResults.aggregates_holder, ScanTree.aggregates_holder,
    fun t _ _ => t.status_element_perm⟩

end UiConformance
