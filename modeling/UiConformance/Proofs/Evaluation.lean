import UiConformance.Proofs.Providers
import UiConformance.Proofs.WellFormed

/-!
# What an evaluation leaves

Each visit writes the results of one element, which depend on the rules and the tree alone. So after
every element was visited, in whatever order, the results are those of the elements one by one. The
results of a walk in test mode are those of the registered rules on the elements of its tree.
-/

namespace UiConformance

/-! ## The elements of a tree -/

namespace ElementTree

variable {t : ElementTree} {e : Element} {i n : Nat}

theorem element?_eq_some_iff : t.element? i = some e ↔ e.tree = t ∧ e.index = i := by
  unfold element?
  constructor
  · intro h
    split at h
    · cases h
      exact ⟨rfl, rfl⟩
    · cases h
  · rintro ⟨rfl, rfl⟩
    exact dif_pos e.inside

theorem element?_eq_none (h : t.size ≤ i) : t.element? i = none :=
  dif_neg (Nat.not_lt.mpr h)

theorem exists_element? (h : i < t.size) : ∃ e, t.element? i = some e :=
  ⟨⟨t, i, h⟩, dif_pos h⟩

theorem getElem?_elements_below (h : n ≤ t.size) (i : Nat) :
    ((List.range n).filterMap t.element?)[i]? = if i < n then t.element? i else none := by
  have hlen : ∀ n ≤ t.size, ((List.range n).filterMap t.element?).length = n := by
    intro n hn
    induction n with
    | zero => rfl
    | succ n ih =>
      obtain ⟨e, he⟩ := exists_element? (t := t) (i := n) (by omega)
      rw [List.range_succ, List.filterMap_append, List.length_append, ih (by omega)]
      simp [he]
  induction n with
  | zero => rfl
  | succ n ih =>
    obtain ⟨e, he⟩ := exists_element? (t := t) (i := n) (by omega)
    rw [List.range_succ, List.filterMap_append, List.filterMap_cons, he, List.filterMap_nil]
    rcases Nat.lt_trichotomy i n with hi | rfl | hi
    · rw [List.getElem?_append_left (by rw [hlen n (by omega)]; exact hi), ih (by omega),
        if_pos hi, if_pos (by omega)]
    · rw [List.getElem?_append_right (Nat.le_of_eq (hlen i (by omega))), hlen i (by omega),
        Nat.sub_self, if_pos (by omega), he]
      rfl
    · rw [List.getElem?_eq_none, if_neg (by omega)]
      rw [List.length_append, hlen n (by omega)]
      exact hi

theorem getElem?_elements (t : ElementTree) (i : Nat) : t.elements[i]? = t.element? i := by
  rw [elements, getElem?_elements_below (Nat.le_refl _)]
  split
  · rfl
  · exact (element?_eq_none (by omega)).symm

theorem mem_elements_iff : e ∈ t.elements ↔ e.tree = t := by
  rw [List.mem_iff_getElem?]
  simp only [getElem?_elements, element?_eq_some_iff]
  exact ⟨fun ⟨_, h, _⟩ => h, fun h => ⟨e.index, h, rfl⟩⟩

theorem node?_index (h : e.tree = t) : t.node? e.index = some e.node := by
  subst h
  exact Array.getElem?_eq_getElem e.inside

theorem Numbered.id_eq {a : Nat} (h : t.Numbered a) (he : e.tree = t) : e.id = idAt a e.index := by
  have hid := h e.index (he ▸ e.inside)
  rw [id?, node?_index he] at hid
  exact Option.some.inj hid

theorem Numbered.pairwise_elements {a : Nat} (h : t.Numbered a) :
    t.elements.Pairwise fun e f => e.id ≠ f.id := by
  rw [elements, List.pairwise_filterMap]
  apply List.nodup_range.imp
  intro i j hij e he f hf heq
  obtain ⟨het, rfl⟩ := element?_eq_some_iff.mp he
  obtain ⟨hft, rfl⟩ := element?_eq_some_iff.mp hf
  rw [h.id_eq het, h.id_eq hft] at heq
  exact hij (idAt_inj heq)

end ElementTree

theorem Element.children_eq (e : Element) :
    e.children = (e.tree.childrenOf e.index).filterMap e.at? := by
  rw [ElementTree.childrenOf, ElementTree.node?_index rfl]
  rfl

/-! ## Visits -/

namespace Evaluation

variable (rules : List Rule) (t : ElementTree)

def resultsAt (i : Nat) : Option ScanResults := (t.element? i).map fun e => (resultsOf rules e).1

theorem results_visit (v : Evaluation) (hv : v.results.size = t.size) (i : Nat) :
    (visit rules t v i).results.size = t.size ∧ ∀ j, (visit rules t v i).results[j]? =
      if i = j then resultsAt rules t j else v.results[j]? := by
  unfold visit
  rcases Nat.lt_or_ge i t.size with hi | hi
  · obtain ⟨e, he⟩ := ElementTree.exists_element? hi
    rw [he]
    refine ⟨by simpa using hv, fun j => ?_⟩
    show (v.results.setIfInBounds i (resultsOf rules e).1)[j]? = _
    rw [Array.getElem?_setIfInBounds, hv, if_pos hi]
    by_cases hj : i = j
    · rw [if_pos hj, if_pos hj, resultsAt, ← hj, he]
      rfl
    · rw [if_neg hj, if_neg hj]
  · -- Outside the tree there are no results, and none are written.
    rw [ElementTree.element?_eq_none hi]
    refine ⟨hv, fun j => ?_⟩
    show v.results[j]? = _
    by_cases hj : i = j
    · subst hj
      rw [if_pos rfl, resultsAt, ElementTree.element?_eq_none hi, Array.getElem?_eq_none (by omega)]
      rfl
    · rw [if_neg hj]

theorem results_foldl (order : List Nat) (v : Evaluation) (hv : v.results.size = t.size) :
    (order.foldl (visit rules t) v).results.size = t.size ∧
      ∀ j, (order.foldl (visit rules t) v).results[j]? =
        if j ∈ order then resultsAt rules t j else v.results[j]? := by
  induction order generalizing v with
  | nil => exact ⟨hv, fun j => rfl⟩
  | cons i order ih =>
    obtain ⟨hsize, hget⟩ := results_visit rules t v hv i
    obtain ⟨hs, hg⟩ := ih _ hsize
    refine ⟨hs, fun j => ?_⟩
    rw [List.foldl_cons, hg, hget]
    by_cases hj : j ∈ order
    · simp [hj]
    · by_cases hi : i = j
      · simp [hi]
      · simp [hj, hi, Ne.symm hi]

/-- Where every element was visited, each has its own results. -/
theorem results_run {order : List Nat} (h : order.Perm (List.range t.size)) :
    (run rules t order).results.toList = t.elements.map fun e => (resultsOf rules e).1 := by
  obtain ⟨hsize, hget⟩ := results_foldl rules t order (blank t) (Array.size_replicate ..)
  apply List.ext_getElem?
  intro j
  rw [Array.getElem?_toList, List.getElem?_map, ElementTree.getElem?_elements, run, hget]
  split
  · rfl
  · next hj =>
    rw [h.mem_iff, List.mem_range] at hj
    rw [ElementTree.element?_eq_none (by omega), Array.getElem?_eq_none]
    · rfl
    · rw [blank, Array.size_replicate]
      omega

end Evaluation

/-! ## Walks -/

/-- Every element has the results of these rules on it. -/
def ScanTree.EvaluatedBy (scan : ScanTree) (rules : List Rule) : Prop :=
  scan.results.toList = scan.tree.elements.map fun e => (resultsOf rules e).1

theorem ScanTree.EvaluatedBy.getElem?_results {scan : ScanTree} {rules : List Rule} {e : Element}
    (h : scan.EvaluatedBy rules) (he : e.tree = scan.tree) :
    scan.results[e.index]? = some (resultsOf rules e).1 := by
  have hat : scan.tree.elements[e.index]? = some e := by
    rw [ElementTree.getElem?_elements, ElementTree.element?_eq_some_iff]
    exact ⟨he, rfl⟩
  rw [← Array.getElem?_toList, h, List.getElem?_map, hat]
  rfl

namespace Walker

variable {H : Type} {w after : Walker H} {s : Schedule} {selected : H} {scan : ScanTree}
  {journal : Journal} {r : Runner}

theorem runnerNeeded_test (hm : w.options.mode = .test) (hr : w.runner = some r) :
    w.runnerNeeded = .ok (some r) := by
  rw [runnerNeeded, hm, hr]

variable [DecidableEq H]

/-- The results of a walk are what evaluating its tree gives. -/
theorem results_eq_evaluate {o : Option Runner} (hr : w.runnerNeeded = .ok o)
    (h : w.walkUnder s selected = (.ok scan, after, journal)) :
    scan.results = (evaluate s w.options scan.tree o).1 := by
  unfold walkUnder at h
  rw [hr] at h
  simp only at h
  split at h
  · cases h
  · simp only [Prod.mk.injEq, Except.ok.injEq] at h
    rw [← h.1]

/-- In test mode every element has the results of the registered rules. -/
theorem evaluatedBy_walkUnder {g : Registry} (hg : g.Distinct) (hp : r.provider.Reached g)
    (hm : w.options.mode = .test) (hr : w.runner = some r) (hs : s.Fair)
    (h : w.walkUnder s selected = (.ok scan, after, journal)) :
    scan.EvaluatedBy (g.registrations.map Registration.rule) := by
  have hrules := (hp.materializeAll.sound.allRules hg).2
  have horder : (if w.options.parallel then s.evaluate scan.tree.size
      else List.range scan.tree.size).Perm (List.range scan.tree.size) := by
    split
    · exact (hs scan.tree.size).2
    · exact .refl _
  rw [ScanTree.EvaluatedBy, results_eq_evaluate (runnerNeeded_test hm hr) h, ← hrules]
  exact Evaluation.results_run _ _ horder

/-- Every element of a walk has the identifier of its position. -/
theorem numbered_walkUnder {o : Option Runner} (hr : w.runnerNeeded = .ok o)
    (h : w.walkUnder s selected = (.ok scan, after, journal)) :
    scan.tree.Numbered (ancestry w.platform selected).1.length := by
  obtain ⟨scan', after', journal', c, u, m, k, hw, hd⟩ := exists_shape hr s selected
  rw [hw] at h
  obtain ⟨order, ht, -⟩ := hd.populated
  obtain rfl : scan' = scan := by simpa using congrArg Prod.fst h
  rw [ht]
  exact (u.sameLinks_populate w.platform w.past order).numbered hd.shapes.numbered

end Walker

end UiConformance
