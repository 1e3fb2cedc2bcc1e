import UiConformance.Proofs.Outcome

/-!
# The descent as a recursion

Without a stack the enumeration of a subtree is a recursion on children: an element that the budget
admits is added with the next identifier, linked to its parent, and everything below it is added
before the next sibling is looked for; a request that is refused ends the list of siblings it was
made in, and each list around it makes a refused request of its own. `Draft.addChildren` is this
recursion, on any platform. It ends because an admitted element takes a unit of the budget and
nothing gives one back.

`builtAlike_addSubtree` says that the stack machine builds what the recursion builds. Both are
`Descends`, which has one outcome.
-/

namespace UiConformance

variable {H : Type}

namespace Draft

theorem remaining_ask (d : Draft H) (P : Platform H) (n : Navigation) (h : H) :
    (d.ask P n h).2.counter.remaining = d.counter.remaining := by
  rw [counter_ask]

theorem remaining_of_admitted {d e : Draft H} (h : d.tryIncrement = (true, e)) :
    e.counter.remaining + 1 = d.counter.remaining := by
  obtain rfl : d.tryIncrement.2 = e := congrArg Prod.snd h
  exact Counter.remaining_tryIncrement (congrArg Prod.fst h)

theorem remaining_of_refused {d e : Draft H} (h : d.tryIncrement = (false, e)) :
    e.counter.remaining = d.counter.remaining := by
  obtain rfl : d.tryIncrement.2 = e := congrArg Prod.snd h
  exact (Counter.remaining_tryIncrement_of_refused (congrArg Prod.fst h)).1

/-- The recursion on children, which leaves no more of the budget than there was. -/
def addChildrenWithin (P : Platform H) (d : Draft H) (parent : Nat) :
    Option H → { e : Draft H // e.counter.remaining ≤ d.counter.remaining }
  | none => ⟨d, Nat.le_refl _⟩
  | some h =>
    match ht : d.tryIncrement with
    | (false, refused) => ⟨refused, Nat.le_of_eq (remaining_of_refused ht)⟩
    | (true, admitted) =>
      let added := admitted.add h
      let first := (added.2.link parent added.1).ask P .firstChild h
      have hfirst : first.2.counter.remaining < d.counter.remaining := by
        have hadmitted := remaining_of_admitted ht
        have hask := remaining_ask (added.2.link parent added.1) P .firstChild h
        exact Nat.lt_of_succ_le (Nat.le_of_eq (hask ▸ hadmitted))
      let below := first.2.addChildrenWithin P added.1 first.1
      let next := below.1.ask P .nextSibling h
      have hnext : next.2.counter.remaining < d.counter.remaining :=
        Nat.lt_of_le_of_lt (Nat.le_trans (Nat.le_of_eq (remaining_ask ..)) below.2) hfirst
      let rest := next.2.addChildrenWithin P parent next.1
      ⟨rest.1, Nat.le_trans rest.2 (Nat.le_of_lt hnext)⟩
termination_by d.counter.remaining
decreasing_by
  · exact hfirst
  · exact hnext

/-- Adds the elements from the cursor on below the element at `parent`. -/
def addChildren (P : Platform H) (d : Draft H) (parent : Nat) (cursor : Option H) : Draft H :=
  (d.addChildrenWithin P parent cursor).1

theorem addChildren_none (P : Platform H) (d : Draft H) (p : Nat) : d.addChildren P p none = d := by
  rw [addChildren, addChildrenWithin]

/-- The element under the cursor, then all that is below it, then its next sibling. -/
theorem addChildren_some (P : Platform H) (d : Draft H) (p : Nat) (h : H) :
    d.addChildren P p (some h) =
      match d.tryIncrement with
      | (false, refused) => refused
      | (true, admitted) =>
        let (i, added) := admitted.add h
        let (first, opened) := (added.link p i).ask P .firstChild h
        let (next, closed) := (opened.addChildren P i first).ask P .nextSibling h
        closed.addChildren P p next := by
  rw [addChildren, addChildrenWithin]
  split
  · next refused ht => simp only [ht]
  · next admitted ht =>
    simp only [ht]
    rfl

def addSubtreeRec (d : Draft H) (P : Platform H) (root : Nat) : Draft H :=
  match d.outline.handles[root]? with
  | none => d
  | some h =>
    let (first, d) := d.ask P .firstChild h
    d.addChildren P root first

/-! ## The recursion descends -/

variable {P : Platform H} {d e : Draft H} {p : Nat} {h : H}

theorem GrownBy.ask {as : List (Nat × H)} {k : Nat} (hg : d.GrownBy e as k) (P : Platform H)
    (n : Navigation) (h : H) : d.GrownBy (e.ask P n h).2 as k :=
  ⟨(outline_ask ..).trans hg.outline, (nextId_ask ..).trans hg.nextId,
    (counter_ask ..).trans hg.counter⟩

theorem addChildren_refused (hr : d.counter.remaining = 0) (P : Platform H) (p : Nat) (h : H) :
    d.GrownBy (d.addChildren P p (some h)) [] 1 := by
  have hf : d.counter.tryIncrement.1 = false := by
    rw [Counter.tryIncrement_fst, hr]
    rfl
  rw [addChildren_some]
  simp only [tryIncrement, hf]
  exact ⟨rfl, (Int.add_zero _).symm, rfl⟩

theorem addChildren_admitted (hr : 0 < d.counter.remaining) (P : Platform H) (p : Nat) (h : H) :
    ∃ e, d.GrownBy e [(p, h)] 0 ∧ d.addChildren P p (some h) =
      ((e.addChildren P d.outline.size (P.reach? .firstChild h)).ask P .nextSibling h).2.addChildren
        P p (P.reach? .nextSibling h) := by
  have ht : d.counter.tryIncrement.1 = true := by
    rw [Counter.tryIncrement_fst]
    exact decide_eq_true hr
  let admitted : Draft H := { d with counter := d.counter.tryIncrement.2 }
  refine ⟨(((admitted.add h).2.link p d.outline.size).ask P .firstChild h).2, ?_, ?_⟩
  · exact GrownBy.ask ⟨rfl, rfl, rfl⟩ P .firstChild h
  · rw [addChildren_some]
    simp only [tryIncrement, ht, ask_fst]
    rfl

/-- What the recursion adds is what a descent admits. -/
theorem admits_addChildren (P : Platform H) (d : Draft H) (p : Nat) (c : Option H) :
    d.Admits P p c (d.addChildren P p c) := by
  induction hb : d.counter.remaining using Nat.strongRecOn generalizing d p c with
  | ind b ih =>
  cases c with
  | none =>
    rw [addChildren_none]
    exact .done P d p
  | some h =>
  rcases Nat.eq_zero_or_pos d.counter.remaining with hr | hr
  · exact .refused hr (addChildren_refused hr P p h)
  obtain ⟨d₁, hg, he⟩ := addChildren_admitted hr P p h
  have hb₁ : d₁.counter.remaining = d.counter.remaining - 1 := by
    rw [hg.counter, Counter.remaining_spend]
    rfl
  obtain ⟨as, k, hd, hbelow⟩ :=
    ih d₁.counter.remaining (by omega) d₁ d.outline.size (P.reach? .firstChild h) rfl
  have hnext : d₁.Admits P d.outline.size (P.reach? .firstChild h) _ :=
    ⟨as, k, hd, hbelow.ask P .nextSibling h⟩
  have hb₂ := hnext.remaining_le
  rw [he]
  exact .admitted hr hg hnext (ih _ (by omega) _ p (P.reach? .nextSibling h) rfl)

/-! ## The stack and the recursion -/

/-- The two hold the same elements with the same links and handles, and go on with the same
identifier and the same counter. -/
structure BuiltAlike (d e : Draft H) : Prop where
  outline : d.outline = e.outline
  nextId : d.nextId = e.nextId
  counter : d.counter = e.counter

theorem Admits.builtAlike {e' : Draft H} {c : Option H} (h : d.Admits P p c e)
    (h' : d.Admits P p c e') : e.BuiltAlike e' := by
  obtain ⟨as, k, hd, hg⟩ := h
  obtain ⟨bs, l, hd', hg'⟩ := h'
  obtain ⟨rfl, rfl⟩ := hd.unique hd'
  exact ⟨hg.outline.trans hg'.outline.symm, hg.nextId.trans hg'.nextId.symm,
    hg.counter.trans hg'.counter.symm⟩

/-- On any platform, below any element of any draft, the enumeration with a stack builds what the
recursion builds. -/
theorem builtAlike_addSubtree (d : Draft H) (P : Platform H) (root : Nat) :
    (d.addSubtree P root).BuiltAlike (d.addSubtreeRec P root) := by
  unfold addSubtree addSubtreeRec
  cases d.outline.handles[root]? with
  | none => exact ⟨rfl, rfl, rfl⟩
  | some h =>
    exact (Descent.descends_run (d.ask P .firstChild h).2 root (d.ask P .firstChild h).1).builtAlike
      (admits_addChildren P ..)

end Draft

end UiConformance
