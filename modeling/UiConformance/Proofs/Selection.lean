import Mathlib.Data.List.Sort
import UiConformance.Proofs.Depiction
import UiConformance.Proofs.Resemblance

/-!
# Selections

A walk from a node and a walk from the root of the same document both show the nodes below the
first, numbered from the node in one walk and from the root in the other. Elements that depict one
node resemble each other, and shallow rules see nothing else. So below the node the reports say the
same, whatever was selected.
-/

namespace UiConformance

open Rose SnapshotTree

namespace Element

variable {e e' : Element} {u : Rose Reading} {r : Reading}

theorem Carries.content_eq (h : e.Carries r) :
    e.content = (r.controlType, r.patterns, some r.properties) := by
  obtain ⟨n, hn, hc, hp, hb⟩ := h
  rw [ElementTree.node?_index rfl] at hn
  cases hn
  rw [content, hc, hp, hb]

theorem Depicts.resembles (h : e.Depicts u) (h' : e'.Depicts u) : e.Resembles e' := by
  refine ⟨h.carries.content_eq.trans h'.carries.content_eq.symm, ?_⟩
  have hks := h.children
  have hks' := h'.children
  generalize e.children = ks at hks
  generalize e'.children = ks' at hks'
  generalize u.children = us at hks hks'
  induction hks generalizing ks' with
  | nil =>
    cases hks'
    exact .nil
  | cons hk _ ih =>
    cases hks' with
    | cons hk' hrest => exact .cons (hk.content_eq.trans hk'.content_eq.symm) (ih _ hrest)

end Element

/-! ## Elements by their identifiers -/

namespace ElementTree

variable {t : ElementTree} {a n : Nat} {id : Int} {e : Element} {u : Rose Reading}

def withId? (t : ElementTree) (id : Int) : Option Element := (t.find? id).bind t.element?

theorem Numbered.withId?_eq_some_iff (hn : t.Numbered a) :
    t.withId? id = some e ↔ e.tree = t ∧ e.id = id := by
  have hid : e.tree = t → t.id? e.index = some e.id := fun h => by
    rw [id?, node?_index h]
    rfl
  rw [withId?, Option.bind_eq_some_iff]
  constructor
  · rintro ⟨i, hi, he⟩
    obtain ⟨ht, rfl⟩ := element?_eq_some_iff.mp he
    rw [hn.find?_eq_some_iff, hid ht] at hi
    exact ⟨ht, Option.some.inj hi⟩
  · rintro ⟨ht, rfl⟩
    exact ⟨e.index, hn.find?_eq_some_iff.mpr (hid ht), element?_eq_some_iff.mpr ⟨ht, rfl⟩⟩

/-- Where a tree is shown there is an element for each of its nodes, as far from the first as the
number of the node says. -/
theorem Numbered.exists_depicts (hn : t.Numbered a) (h : t.ShowsTree n (n + 1) u)
    {q : Place Reading} (hq : q.whole = u) :
    ∃ e, t.withId? ((n : Int) + q.number) = some e ∧ e.Depicts q.focus := by
  subst hq
  have hshown := showsTree_of_plugAll h
  obtain ⟨i, hi, ⟨m, hm, -⟩, -⟩ := (showsTree_iff.mp hshown).1
  obtain ⟨e, he⟩ := exists_element? (lt_size_of_node? hm)
  have hfound : t.withId? ((n : Int) + q.number) = some e := by
    rw [withId?, ← Int.natCast_add]
    exact Option.bind_eq_some_iff.mpr ⟨i, hi, he⟩
  obtain ⟨rfl, hid⟩ := hn.withId?_eq_some_iff.mp hfound
  rw [← Int.natCast_add] at hid
  exact ⟨e, hfound, hn.depicts_of_showsTree hid hshown⟩

instance : Std.Asymm fun e f : Element => e.id < f.id where
  asymm _ _ h := Int.lt_asymm h

/-- The elements with identifiers from `n` on, one after another, are those that sorting puts there. -/
theorem Numbered.filter_sortOn (hn : t.Numbered a) (n : Int) (d : Nat) :
    ((sortOn Element.id t.elements).filter fun e => decide (n ≤ e.id ∧ e.id ≤ n + d)) =
      (List.range (d + 1)).filterMap fun k => t.withId? (n + (k : Nat)) := by
  have hne := hn.pairwise_elements.perm (sortOn_perm Element.id _).symm fun h => h.symm
  have hsorted : (sortOn Element.id t.elements).Pairwise fun e f => e.id < f.id :=
    (pairwise_sortOn Element.id _).imp₂ (fun e f hle hne => by omega) hne
  refine List.Pairwise.eq_of_mem_iff (hsorted.filter _) ?_ fun e => ?_
  · rw [List.pairwise_filterMap]
    refine List.pairwise_lt_range.imp fun {i j} hij e he f hf => ?_
    rw [(hn.withId?_eq_some_iff.mp he).2, (hn.withId?_eq_some_iff.mp hf).2]
    omega
  · rw [List.mem_filter, (sortOn_perm _ _).mem_iff, mem_elements_iff, decide_eq_true_eq,
      List.mem_filterMap]
    simp only [List.mem_range, hn.withId?_eq_some_iff]
    constructor
    · rintro ⟨ht, hle, hge⟩
      exact ⟨(e.id - n).toNat, by omega, ht, by omega⟩
    · rintro ⟨k, hk, ht, hid⟩
      exact ⟨ht, by omega⟩

end ElementTree

/-! ## Reports -/

namespace Report

def between (report : Report) (first last : Int) : List Finding :=
  report.findings.filter fun f => decide (first ≤ f.elementId ∧ f.elementId ≤ last)

variable {scan scan' : ScanTree} {rules : List Rule} {a a' n n' : Nat} {u : Rose Reading}

theorem between_ofScan (hresults : scan.EvaluatedBy rules) (hn : scan.tree.Numbered a)
    (source : String) (s : Settings) (n : Int) (d : Nat) :
    (ofScan source scan s).between n (n + d) =
      ((List.range (d + 1)).filterMap fun k => scan.tree.withId? (n + (k : Nat))).flatMap
        (findingsAt s rules) := by
  rw [between, findings_ofScan hresults, ← hn.filter_sortOn]
  exact filter_flatMap_key (fun e _ f hf => elementId_findingsAt hf)
    fun id => decide (n ≤ id ∧ id ≤ n + d)

/-- Where two trees show one branch of a document, shallow rules say the same of it. -/
theorem matches_between (hrules : ∀ r ∈ rules, r.Shallow) (hresults : scan.EvaluatedBy rules)
    (hresults' : scan'.EvaluatedBy rules) (hn : scan.tree.Numbered a)
    (hn' : scan'.tree.Numbered a') (h : scan.tree.ShowsTree n (n + 1) u)
    (h' : scan'.tree.ShowsTree n' (n' + 1) u) (source source' : String) (s : Settings) :
    List.Forall₂ (Finding.Matches n n')
      ((ofScan source scan s).between n (n + sizeForest u.children))
      ((ofScan source' scan' s).between n' (n' + sizeForest u.children)) := by
  have hsize : sizeForest u.children + 1 = u.size := by
    rw [← node_value_children u, Rose.size, Nat.add_comm]
    rfl
  rw [between_ofScan hresults hn, between_ofScan hresults' hn', hsize]
  have helements : List.Forall₂ (fun e e' => e.Resembles e' ∧ e.id - (n : Int) = e'.id - (n' : Int))
      ((List.range u.size).filterMap fun k => scan.tree.withId? ((n : Int) + (k : Nat)))
      ((List.range u.size).filterMap fun k => scan'.tree.withId? ((n' : Int) + (k : Nat))) := by
    refine List.rel_filterMap (R := fun k k' => k = k' ∧ k < u.size) ?_
      (List.forall₂_same.mpr fun k hk => ⟨rfl, List.mem_range.mp hk⟩)
    rintro k _ ⟨rfl, hk⟩
    obtain ⟨q, hq, rfl⟩ := Place.exists_place u hk
    obtain ⟨e, he, hd⟩ := hn.exists_depicts h hq
    obtain ⟨e', he', hd'⟩ := hn'.exists_depicts h' hq
    simp only [he, he']
    refine .some ⟨hd.resembles hd', ?_⟩
    rw [(hn.withId?_eq_some_iff.mp he).2, (hn'.withId?_eq_some_iff.mp he').2]
    omega
  refine List.rel_flatMap helements ?_
  rintro e e' ⟨hlike, hid⟩
  exact matches_findingsAt hrules hlike hid s

/-- Below the place the report of the selection says what the report of the whole document says
there. Only messages differ, and only in the identifiers that they start with. -/
structure SameBelow (selection whole : Report) (p : Place Reading) : Prop where
  findings : (selection.between 0 p.descendants).map (Finding.relativeTo 0) =
    (whole.between p.number (p.number + p.descendants)).map (Finding.relativeTo p.number)
  matching : List.Forall₂ (Finding.Matches 0 p.number) (selection.between 0 p.descendants)
    (whole.between p.number (p.number + p.descendants))

end Report

/-! ## Walks -/

namespace Walker

/-- The walker tests the document with the built-in rules, and nothing was counted yet. -/
structure Examines (w : Walker SnapshotHandle) (t : Rose Reading) : Prop where
  platform : w.platform = (ofRose t).platform
  counter : ∃ b, Counter.ofBound b = .ok w.counter
  mode : w.options.mode = .test
  runner : ∃ q, w.runner = some q ∧ q.Runs Builtin.registrations

variable {t : Rose Reading} {h : SnapshotHandle} {w w' : Walker SnapshotHandle}
  {order order' : Schedule}

/-- A walk that is not truncated shows what is below the place, and evaluates the rules. -/
theorem Examines.exists_shown (hw : w.Examines t) (ho : order.Fair) (h : SnapshotHandle) :
    ∃ scan after journal, w.walkUnder order h = (.ok scan, after, journal) ∧
      (∃ a, scan.tree.Numbered a) ∧
      scan.EvaluatedBy (Builtin.registrations.map Registration.rule) ∧
      (scan.truncated = false → ∀ p : Place Reading, p.whole = t → p.number = h.number →
        scan.tree.ShowsTree 0 1 p.focus) := by
  obtain ⟨b, hb⟩ := hw.counter
  obtain ⟨q, hq, hruns⟩ := hw.runner
  have hr := runnerNeeded_test hw.mode hq
  obtain ⟨scan, after, journal, c, o, m, k, hwalk, hd⟩ := exists_shape hr order h
  refine ⟨scan, after, journal, hwalk, ⟨_, numbered_walkUnder hr hwalk⟩,
    evaluatedBy_walkUnder hruns.distinct hruns.reached hw.mode hq ho hwalk, ?_⟩
  rintro hfull p rfl hnum
  obtain rfl : h = ⟨p.number⟩ := by rw [hnum]
  obtain ⟨hrem, -, htrunc⟩ := hd.spent hw.platform hb
  rw [← Bool.not_eq_true, htrunc] at hfull
  exact (hd.faithful hw.platform (by omega)).1.subtree

/-- What is said below a node does not depend on whether it was selected or the root. -/
theorem sameBelow_walkUnder (hh : h.number < (ofRose t).size) (hw : w.Examines t)
    (hw' : w'.Examines t) (ho : order.Fair) (ho' : order'.Fair) (source source' : String)
    (s : Settings) :
    (∃ p : Place Reading, p.whole = t ∧ p.number = h.number) ∧
      ∃ scan after journal scan' after' journal',
        w.walkUnder order h = (.ok scan, after, journal) ∧
        w'.walkUnder order' (ofRose t).root = (.ok scan', after', journal') ∧
        (scan.truncated = false → scan'.truncated = false →
          ∀ p : Place Reading, p.whole = t → p.number = h.number →
            (Report.ofScan source scan s).SameBelow (Report.ofScan source' scan' s) p) := by
  rw [size_ofRose] at hh
  obtain ⟨scan, after, journal, hwalk, ⟨a, hn⟩, hresults, hshown⟩ := hw.exists_shown ho h
  obtain ⟨scan', after', journal', hwalk', ⟨a', hn'⟩, hresults', hshown'⟩ :=
    hw'.exists_shown ho' (ofRose t).root
  refine ⟨Place.exists_place t hh, scan, after, journal, scan', after', journal', hwalk, hwalk',
    fun hfull hfull' p hp hnum => ?_⟩
  have hbranch := hshown hfull p hp hnum
  subst hp
  have hwhole := ElementTree.showsTree_of_plugAll (hshown' hfull' ⟨p.whole, []⟩ rfl rfl)
  rw [Nat.zero_add] at hwhole
  have hmatching := Report.matches_between Builtin.shallow_registrations hresults hresults' hn hn'
    hbranch hwhole source source' s
  rw [Int.natCast_zero, Int.zero_add] at hmatching
  refine ⟨?_, hmatching⟩
  rw [← List.forall₂_eq_eq_eq, List.forall₂_map_left_iff, List.forall₂_map_right_iff]
  exact hmatching.imp fun _ _ hfg => hfg.relative

/-- The button's rectangle is none, which the rule tells of with the identifier of the element. -/
def panelButton : Rose Reading :=
  .node { controlType := .button,
          properties := ⟨[(.boundingRectangle, .text "wide")], List.pairwise_singleton _ _⟩ } []

/-- A panel between a text and the edge of its window. -/
def panel : Place Reading where
  focus := .node { controlType := ⟨50033⟩ } [panelButton]
  above := [⟨{ controlType := ⟨50032⟩ }, [.node { controlType := .staticText } []], []⟩]

def panelWalker : Walker SnapshotHandle where
  platform := (ofRose panel.whole).platform
  options := { mode := .test }
  counter := { bound := 9 }
  runner := some { provider := .ofRegistry (.of Builtin.registrations) }

theorem sameBelow_walkUnder_panel :
    ∃ scan after journal scan' after' journal',
      panelWalker.walkUnder .inOrder ⟨2⟩ = (.ok scan, after, journal) ∧
      panelWalker.walkUnder .inOrder (ofRose panel.whole).root = (.ok scan', after', journal') ∧
      (Report.ofScan "panel" scan {}).SameBelow (Report.ofScan "window" scan' {}) panel := by
  have hexamines : panelWalker.Examines panel.whole :=
    ⟨rfl, ⟨9, rfl⟩, rfl, _, rfl, Builtin.ofList_registrations, .fresh⟩
  have hfair : Schedule.inOrder.Fair := fun n => ⟨.refl _, .refl _⟩
  obtain ⟨-, scan, after, journal, scan', after', journal', hwalk, hwalk', hsame⟩ :=
    sameBelow_walkUnder (h := ⟨2⟩) (by decide) hexamines hexamines hfair hfair "panel" "window" {}
  have hfull : ∀ h : SnapshotHandle, h = ⟨2⟩ ∨ h = ⟨0⟩ →
      ∃ scan after journal, panelWalker.walkUnder .inOrder h = (.ok scan, after, journal) ∧
        scan.truncated = false := by
    rintro h (rfl | rfl)
    · exact ⟨_, _, _, rfl, rfl⟩
    · exact ⟨_, _, _, rfl, rfl⟩
  obtain ⟨scan₁, _, _, hwalk₁, hfull₁⟩ := hfull ⟨2⟩ (.inl rfl)
  obtain ⟨scan₂, _, _, hwalk₂, hfull₂⟩ := hfull ⟨0⟩ (.inr rfl)
  have hone : scan₁ = scan := Except.ok.inj (congrArg Prod.fst (hwalk₁.symm.trans hwalk))
  have htwo : scan₂ = scan' := Except.ok.inj (congrArg Prod.fst (hwalk₂.symm.trans hwalk'))
  exact ⟨scan, after, journal, scan', after', journal', hwalk, hwalk',
    hsame (hone ▸ hfull₁) (htwo ▸ hfull₂) panel rfl rfl⟩

end Walker

end UiConformance
