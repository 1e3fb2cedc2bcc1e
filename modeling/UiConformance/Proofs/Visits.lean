import UiConformance.Proofs.SnapshotWalk

/-!
# How many elements a walk visits

What comes after the ancestors of the selected element is admitted one by one, as far as the budget
goes. The ancestors themselves are counted all at once and belong to the tree whether or not the
budget has room for them. So a walk with a fresh counter keeps to its bound exactly where the
selected element has no more ancestors than that; where it has more, they are all that is visited.
-/

namespace UiConformance

open SnapshotTree

namespace Walker

section

variable {H : Type} [DecidableEq H] {w after : Walker H} {selected : H} {scan : ScanTree}
  {c : Counter} {o : Outline H} {m k : Nat} {b : Int}

theorem Draws.admitted_le (h : w.Draws selected scan after c o m k)
    (hb : Counter.ofBound b = .ok w.counter) :
    m ≤ b.toNat - (ancestry w.platform selected).1.length := by
  obtain ⟨hbound, htracks⟩ := h.tracks hb
  have hm := h.shapes.le_budget
  have hlt := htracks.bound_lt
  rw [htracks.remaining_eq] at hm
  omega

/-- On any platform a walk keeps to its bound exactly where the ancestors do. -/
theorem Draws.size_tree_le_iff (h : w.Draws selected scan after c o m k)
    (hb : Counter.ofBound b = .ok w.counter) :
    (scan.tree.size : Int) ≤ 1 + b ↔ ((ancestry w.platform selected).1.length : Int) ≤ b := by
  have hsize := h.size_tree_eq
  have hm := h.admitted_le hb
  obtain ⟨⟨hpos, -⟩, -⟩ := Counter.ofBound_eq_ok_iff.mp hb
  omega

theorem Draws.size_tree_of_lt (h : w.Draws selected scan after c o m k)
    (hb : Counter.ofBound b = .ok w.counter)
    (hlt : b < (ancestry w.platform selected).1.length) :
    scan.tree.size = 1 + (ancestry w.platform selected).1.length := by
  have hsize := h.size_tree_eq
  have hm := h.admitted_le hb
  omega

end

variable {t : Rose Reading} {h : SnapshotHandle} {w : Walker SnapshotHandle} {b : Int}
  {r : Option Runner}

/-- A walk over a snapshot with a fresh counter visits no more elements beside the selected one than
the bound says exactly where the selected node is no deeper than that. A walk from a deeper node
visits its ancestors and nothing else. -/
theorem size_walkUnder_le_iff (hh : h.number < (ofRose t).size)
    (hp : w.platform = (ofRose t).platform) (hb : Counter.ofBound b = .ok w.counter)
    (hr : w.runnerNeeded = .ok r) (s : Schedule) :
    (∃ p : Place Reading, p.whole = t ∧ p.number = h.number) ∧
      ∀ p : Place Reading, p.whole = t → p.number = h.number →
        ∃ scan after journal, w.walkUnder s h = (.ok scan, after, journal) ∧
          ((scan.tree.size : Int) ≤ 1 + b ↔ (p.above.length : Int) ≤ b) ∧
          (b < p.above.length → scan.tree.size = 1 + p.above.length) := by
  rw [size_ofRose] at hh
  refine ⟨Place.exists_place t hh, ?_⟩
  rintro p rfl hn
  obtain rfl : h = ⟨p.number⟩ := by rw [hn]
  obtain ⟨scan, after, journal, c, o, m, k, hw, hd⟩ := exists_shape hr s ⟨p.number⟩
  have hle := hd.size_tree_le_iff hb
  have hlt := hd.size_tree_of_lt hb
  rw [hp, ancestry_ofRose, length_map_offsets] at hle hlt
  exact ⟨scan, after, journal, hw, hle, hlt⟩

/-- The link is as deep as the bound, which it and everything around it keep to. -/
theorem size_walkUnder_le_iff_window :
    ∃ scan after journal,
      (windowWalker 1).walkUnder .inOrder ⟨1⟩ = (.ok scan, after, journal) ∧
      (scan.tree.size : Int) ≤ 1 + 1 := by
  obtain ⟨scan, after, journal, hw, hle, -⟩ :=
    (size_walkUnder_le_iff (t := window) (h := ⟨1⟩) (w := windowWalker 1) (by decide) rfl
      (show Counter.ofBound 1 = .ok ⟨1, 0, 0⟩ from rfl) rfl .inOrder).2 link rfl rfl
  exact ⟨scan, after, journal, hw, hle.mpr (by decide)⟩

/-- The text below the link has two ancestors, and a walk with a bound of one visits both. -/
theorem size_walkUnder_window_text :
    Counter.ofBound 1 = .ok (windowWalker 1).counter ∧
      ∃ scan after journal,
        (windowWalker 1).walkUnder .inOrder ⟨2⟩ = (.ok scan, after, journal) ∧
        1 + 1 < scan.tree.size :=
  ⟨rfl, _, _, _, rfl, by decide⟩

end Walker

end UiConformance
