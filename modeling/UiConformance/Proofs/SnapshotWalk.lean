import UiConformance.Proofs.Faithful

/-!
# Walks over snapshots

With enough budget a walk over a snapshot is a faithful picture of the document around the selected
node. With less it says that it was truncated and holds as many elements as the budget allows.
-/

namespace UiConformance

open SnapshotTree

namespace Walker

/-- The elements beside the selected one that a walk of everything around a place has. -/
def wants (w : Walker SnapshotHandle) (p : Place Reading) : Nat :=
  p.descendants + (p.context w.options.siblingContext).length

namespace Draws

variable {w after : Walker SnapshotHandle} {p : Place Reading} {scan : ScanTree} {c : Counter}
  {o : Outline SnapshotHandle} {m k : Nat}

theorem size_tree (h : w.Draws ⟨p.number⟩ scan after c o m k)
    (hp : w.platform = (ofRose p.whole).platform) :
    scan.tree.size = 1 + p.above.length + m := by
  have hsize := h.size_tree_eq
  rwa [hp, ancestry_ofRose, length_map_offsets] at hsize

theorem spent (h : w.Draws ⟨p.number⟩ scan after c o m k)
    (hp : w.platform = (ofRose p.whole).platform) {b : Int}
    (hb : Counter.ofBound b = .ok w.counter) :
    c.remaining = b.toNat - p.above.length ∧
      m = min (w.wants p) (b.toNat - p.above.length) ∧
      (scan.truncated = true ↔ b.toNat < p.above.length + w.wants p) := by
  obtain ⟨hbound, htracks⟩ := h.tracks hb
  obtain ⟨-, hs, hc, -, -, ht⟩ := h
  rw [hp, ancestry_ofRose] at hs htracks
  rw [length_map_offsets] at htracks
  have hlt := htracks.bound_lt
  obtain ⟨hm, hk⟩ := hs.admitted_eq
  have hrem := htracks.remaining_eq
  have hexceeded := (htracks.spend (m + k)).exceeded_iff
  rw [Counter.bound_spend] at hexceeded
  rw [ht, hc, hexceeded]
  change m = min (w.wants p) _ at hm
  change 0 < k ↔ _ < w.wants p at hk
  omega

/-- Where the budget is enough for everything around a place, the walk is a faithful picture. -/
theorem faithful (h : w.Draws ⟨p.number⟩ scan after c o m k)
    (hp : w.platform = (ofRose p.whole).platform) (hle : w.wants p ≤ c.remaining) :
    scan.tree.Faithful p w.options.siblingContext ∧ scan.unpopulated = 0 := by
  obtain ⟨hm, hk⟩ : m = w.wants p ∧ k = 0 := by
    have hs := h.shapes
    rw [hp, ancestry_ofRose] at hs
    obtain ⟨hm, hk⟩ := hs.admitted_eq
    change m = min (w.wants p) _ at hm
    change 0 < k ↔ _ < w.wants p at hk
    omega
  obtain ⟨-, hs, -, ⟨order, ht, hu⟩, -, -⟩ := h
  rw [hp, ancestry_ofRose] at hs
  rw [hp] at ht hu
  have hcomplete := hs.complete hle
  have hnumbered := hs.numbered
  have hrooted := hs.rooted
  have hsize := hs.size_eq
  rw [length_map_offsets] at hnumbered hrooted hsize
  rw [hm] at hsize
  rw [ht, hu]
  refine ⟨hcomplete.faithful hs.unread hnumbered hrooted ?_ w.past order,
    Outline.unpopulated_populate (fun past a ha => ?_) w.past order⟩
  · rw [hsize, wants, Nat.add_assoc (1 + p.above.length)]
  · obtain ⟨q, hw, rfl⟩ := hcomplete.exists_place ha
    rw [← hw]
    exact ⟨_, read_ofRose q past⟩

end Draws

variable {t : Rose Reading} {h : SnapshotHandle} {w : Walker SnapshotHandle} {b : Int}
  {r : Option Runner}

/-- Every handle of a snapshot is a place in its document, and a walk from it with a fresh counter
whose bound is enough for everything around the place is a faithful picture. -/
theorem faithful_walkUnder (hh : h.number < (ofRose t).size)
    (hp : w.platform = (ofRose t).platform) (hb : Counter.ofBound b = .ok w.counter)
    (hr : w.runnerNeeded = .ok r) (s : Schedule) :
    (∃ p : Place Reading, p.whole = t ∧ p.number = h.number) ∧
      ∀ p : Place Reading, p.whole = t → p.number = h.number →
        ((p.above.length + p.descendants + (p.context w.options.siblingContext).length : Nat) : Int)
          ≤ b →
        ∃ scan after journal, w.walkUnder s h = (.ok scan, after, journal) ∧
          scan.tree.Faithful p w.options.siblingContext ∧
          scan.unpopulated = 0 ∧ scan.truncated = false := by
  rw [size_ofRose] at hh
  refine ⟨Place.exists_place t hh, ?_⟩
  rintro p rfl hn hle
  obtain rfl : h = ⟨p.number⟩ := by rw [hn]
  obtain ⟨scan, after, journal, c, o, m, k, hw, hd⟩ := exists_shape hr s ⟨p.number⟩
  obtain ⟨hrem, -, htrunc⟩ := hd.spent hp hb
  have henough : p.above.length + w.wants p ≤ b.toNat := by
    rw [wants]
    omega
  obtain ⟨hfaithful, hunpopulated⟩ := hd.faithful hp (by omega)
  refine ⟨scan, after, journal, hw, hfaithful, hunpopulated, ?_⟩
  rw [← Bool.not_eq_true, htrunc]
  omega

/-- A window with a link, which has a text below it, and a button. -/
def window : Rose Reading :=
  .node { controlType := ⟨50032⟩ }
    [.node { controlType := ⟨50005⟩ } [.node { controlType := ⟨50020⟩ } []],
      .node { controlType := ⟨50000⟩ } []]

def link : Place Reading where
  focus := .node { controlType := ⟨50005⟩ } [.node { controlType := ⟨50020⟩ } []]
  above := [⟨{ controlType := ⟨50032⟩ }, [], [.node { controlType := ⟨50000⟩ } []]⟩]

def windowWalker (bound : Nat) : Walker SnapshotHandle where
  platform := (ofRose window).platform
  options := { mode := .live }
  counter := { bound }

theorem faithful_walkUnder_window :
    ∃ scan after journal,
      (windowWalker 3).walkUnder .inOrder ⟨1⟩ = (.ok scan, after, journal) ∧
      scan.tree.Faithful link true ∧ scan.unpopulated = 0 ∧ scan.truncated = false :=
  (faithful_walkUnder (t := window) (h := ⟨1⟩) (w := windowWalker 3) (by decide) rfl
    (show Counter.ofBound 3 = .ok ⟨3, 0, 0⟩ from rfl) rfl .inOrder).2 link rfl rfl (by decide)

/-- A walk with a fresh counter says that it was truncated exactly where the bound is less than what
is around the place, and it has as many elements as the bound allows. -/
theorem truncated_walkUnder (hh : h.number < (ofRose t).size)
    (hp : w.platform = (ofRose t).platform) (hb : Counter.ofBound b = .ok w.counter)
    (hr : w.runnerNeeded = .ok r) (s : Schedule) :
    (∃ p : Place Reading, p.whole = t ∧ p.number = h.number) ∧
      ∀ p : Place Reading, p.whole = t → p.number = h.number →
        ∃ scan after journal, w.walkUnder s h = (.ok scan, after, journal) ∧
          (scan.truncated = true ↔ b < ((p.above.length + p.descendants +
            (p.context w.options.siblingContext).length : Nat) : Int)) ∧
          (scan.tree.size : Int) = 1 + p.above.length +
            min ((p.descendants + (p.context w.options.siblingContext).length : Nat) : Int)
              (max 0 (b - p.above.length)) ∧
          (scan.truncated = false → scan.tree.Faithful p w.options.siblingContext) := by
  rw [size_ofRose] at hh
  refine ⟨Place.exists_place t hh, ?_⟩
  rintro p rfl hn
  obtain rfl : h = ⟨p.number⟩ := by rw [hn]
  obtain ⟨scan, after, journal, c, o, m, k, hw, hd⟩ := exists_shape hr s ⟨p.number⟩
  obtain ⟨hrem, hm, htrunc⟩ := hd.spent hp hb
  obtain ⟨⟨hpos, -⟩, -⟩ := Counter.ofBound_eq_ok_iff.mp hb
  have hsize := hd.size_tree hp
  refine ⟨scan, after, journal, hw, ?_, ?_, fun hfull => (hd.faithful hp ?_).1⟩
  · rw [htrunc, wants]
    omega
  · rw [hsize, hm, wants]
    omega
  · rw [← Bool.not_eq_true, htrunc] at hfull
    omega

theorem truncated_walkUnder_window :
    ∃ scan after journal,
      (windowWalker 2).walkUnder .inOrder ⟨1⟩ = (.ok scan, after, journal) ∧
      scan.truncated = true ∧ scan.tree.size = 3 := by
  obtain ⟨scan, after, journal, hw, htrunc, hsize, -⟩ :=
    (truncated_walkUnder (t := window) (h := ⟨1⟩) (w := windowWalker 2) (by decide) rfl
      (show Counter.ofBound 2 = .ok ⟨2, 0, 0⟩ from rfl) rfl .inOrder).2 link rfl rfl
  have hthree : (scan.tree.size : Int) = 3 := hsize.trans (by decide)
  exact ⟨scan, after, journal, hw, htrunc.mpr (by decide), by omega⟩

end Walker

end UiConformance
