import UiConformance.Proofs.Findings
import UiConformance.Proofs.Outcome

/-!
# Schedules

Whatever the order in which the parallel phases visit the elements, a walk on a steady platform has
the outcome of the walk that visits them one by one. For the evaluation more is true: an element is
evaluated by several writes to its results, and those of different elements may come in between.
Each write changes one element's results only, and no rule reads any, so that only the order among
the writes to one element counts.
-/

namespace UiConformance

/-! ## Writes to results -/

/-- A single write to the results of one element. -/
inductive Write
  | clear
  | add (r : ScanResult)

namespace Write

def apply : Write → ScanResults → ScanResults
  | clear, rs => rs.clear
  | add r, rs => rs.add r

def applyAll (ws : List Write) (rs : ScanResults) : ScanResults :=
  ws.foldl (fun rs w => w.apply rs) rs

/-- The writes of a log to the results at a position, in order. -/
def on (log : List (Nat × Write)) (i : Nat) : List Write :=
  (log.filter fun w => w.1 = i).map Prod.snd

/-- Does the writes of a log, each to the results of its element. -/
def replay (log : List (Nat × Write)) (results : Array ScanResults) : Array ScanResults :=
  log.foldl (fun results w => results.modify w.1 w.2.apply) results

variable {log : List (Nat × Write)} {results : Array ScanResults} {i j : Nat} {w : Write}

theorem on_cons_self : on ((i, w) :: log) i = w :: on log i := by
  simp [on]

theorem on_cons_of_ne (h : j ≠ i) : on ((j, w) :: log) i = on log i := by
  simp [on, h]

/-- After a log every element has what the writes to it make of its results. -/
theorem getElem?_replay (log : List (Nat × Write)) (results : Array ScanResults) (i : Nat) :
    (replay log results)[i]? = results[i]?.map (applyAll (on log i)) := by
  induction log generalizing results with
  | nil => cases h : results[i]? <;> simp [replay, on, applyAll, h]
  | cons w log ih =>
    obtain ⟨j, w⟩ := w
    have hrest := ih (results.modify j w.apply)
    rw [Array.getElem?_modify] at hrest
    by_cases hj : j = i
    · subst hj
      rw [if_pos rfl, Option.map_map] at hrest
      rw [on_cons_self]
      exact hrest
    · rw [if_neg hj] at hrest
      rw [on_cons_of_ne hj]
      exact hrest

theorem applyAll_add (rs : List ScanResult) (start : ScanResults) :
    applyAll (rs.map add) start = ⟨start.items ++ rs⟩ := by
  induction rs generalizing start with
  | nil => simp [applyAll]
  | cons r rs ih =>
    rw [List.map_cons]
    refine (ih (start.add r)).trans ?_
    simp [ScanResults.add]

end Write

/-- The writes that the evaluation of an element makes. Earlier results are cleared first. -/
def writesOf (rules : List Rule) (e : Element) : List Write :=
  .clear :: (resultsOf rules e).1.items.map .add

/-- The writes of a log to each element are those of its evaluation, in order. -/
def Interleaves (rules : List Rule) (t : ElementTree) (log : List (Nat × Write)) : Prop :=
  ∀ i e, t.element? i = some e → Write.on log i = writesOf rules e

theorem applyAll_writesOf (rules : List Rule) (e : Element) (start : ScanResults) :
    Write.applyAll (writesOf rules e) start = (resultsOf rules e).1 :=
  Write.applyAll_add (resultsOf rules e).1.items {}

/-- Evaluations whose writes are interleaved leave what evaluations one after another leave,
whatever the results were before. -/
theorem replay_interleaved {rules : List Rule} {t : ElementTree} {log : List (Nat × Write)}
    (h : Interleaves rules t log) {results : Array ScanResults} (hsize : results.size = t.size)
    {order : List Nat} (horder : order.Perm (List.range t.size)) :
    Write.replay log results = (Evaluation.run rules t order).results := by
  apply Array.toList_inj.mp
  rw [Evaluation.results_run rules t horder]
  apply List.ext_getElem?
  intro i
  rw [Array.getElem?_toList, Write.getElem?_replay, List.getElem?_map,
    ElementTree.getElem?_elements]
  rcases Nat.lt_or_ge i t.size with hi | hi
  · obtain ⟨e, he⟩ := ElementTree.exists_element? hi
    rw [he, h i e he, Array.getElem?_eq_getElem (by omega), Option.map_some, Option.map_some,
      applyAll_writesOf]
  · rw [ElementTree.element?_eq_none hi, Array.getElem?_eq_none (by omega)]
    rfl

namespace Walker

variable {H : Type}

/-! ## Walks -/

def sequential (w : Walker H) : Walker H :=
  { w with options := { w.options with parallel := false } }

theorem matches_sequential (w : Walker H) : w.Matches w.sequential :=
  ⟨rfl, rfl, rfl, rfl, .refl _⟩

theorem runnerNeeded_sequential (w : Walker H) : w.sequential.runnerNeeded = w.runnerNeeded := rfl

theorem fair_inOrder : Schedule.inOrder.Fair := fun _ => ⟨.refl _, .refl _⟩

variable [DecidableEq H]

/-- The walk under a schedule is the walk that visits the elements one by one. -/
structure OrderFree (w : Walker H) (s : Schedule) (selected : H) : Prop where
  outcome : (w.walkUnder s selected).1 = (w.sequential.walk selected).1
  report : ∀ source settings,
    (w.walkUnder s selected).1.map (fun scan => Report.ofScan source scan settings) =
      (w.sequential.walk selected).1.map fun scan => Report.ofScan source scan settings
  /-- The results are the same even where the writes of evaluations are interleaved. -/
  results : ∀ r scan, w.runnerNeeded = .ok (some r) →
    (w.sequential.walk selected).1 = .ok scan → ∀ log start, start.size = scan.tree.size →
      Interleaves r.rules scan.tree log → Write.replay log start = scan.results

theorem walkUnder_sequential {w : Walker H} (steady : w.platform.Steady) {s : Schedule}
    (hs : s.Fair) (selected : H) :
    (w.walkUnder s selected).1 = (w.sequential.walk selected).1 := by
  cases hr : w.runnerNeeded with
  | error e =>
    rw [walk, walkUnder_error hr, walkUnder_error (w.runnerNeeded_sequential.trans hr)]
  | ok o =>
    obtain ⟨scan, after, journal, after', journal', n, hw, hw', -⟩ :=
      w.matches_sequential.walkUnder steady hs fair_inOrder hr selected
    rw [walk, hw, hw']

/-- On a steady platform no fair schedule can be told from another. -/
theorem orderFree_walkUnder {w : Walker H} (steady : w.platform.Steady) {s : Schedule}
    (hs : s.Fair) (selected : H) : w.OrderFree s selected := by
  have houtcome := walkUnder_sequential steady hs selected
  refine ⟨houtcome, fun source settings => by rw [houtcome], ?_⟩
  intro r scan hr hscan log start hstart hlog
  match hw : w.sequential.walk selected with
  | (out, after, journal) =>
    rw [hw] at hscan
    obtain rfl : out = .ok scan := hscan
    rw [results_eq_evaluate (w.runnerNeeded_sequential.trans hr) hw]
    exact replay_interleaved hlog hstart (.refl _)

/-- An element that cannot be read, below a parent of two, visited from the last to the first. -/
def unreadable : Walker Int :=
  { Report.loopingTest with
    platform := Script.platform
      { children := [(0, [1, 2]), (1, [3])]
        fault := fun call h => if call = "snapshot" ∧ h = 3 then some (.notAvailable "3") else none }
    options := { mode := .test, parallel := true } }

theorem orderFree_walkUnder_unreadable :
    (∃ scan after journal, unreadable.sequential.walk 1 = (.ok scan, after, journal) ∧
      scan.tree.size = 4 ∧ scan.unpopulated = 1) ∧
    unreadable.OrderFree ⟨fun n => (List.range n).reverse, fun n => (List.range n).reverse⟩ 1 :=
  ⟨⟨_, _, _, rfl, rfl, rfl⟩,
    orderFree_walkUnder (fun _ _ _ => rfl) (fun _ => ⟨List.reverse_perm _, List.reverse_perm _⟩) 1⟩

end Walker

end UiConformance
