import UiConformance.Proofs.Calls
import UiConformance.Proofs.Findings
import UiConformance.Proofs.Outcome

/-!
# Histories of walks

The budget of a walker is shared by all its walks until it is reset. What a history of walks and
resets asked for since the last reset is a plain sum, and this sum is all that later walks feel of
the history: as long as it stays below the bound they cannot be told from walks of a new walker
that has the rest as its bound, and from then on they add nothing to the ancestors.

`Shifted d w w'` relates a walker to one that has `d` less of everything: a bound and a sum that are
smaller by `d`. One walk keeps the relation and gives the same outcome on both sides.
-/

namespace UiConformance

variable {H : Type}

/-! ## Nothing left -/

namespace Outline

theorem adopt_spine (selected above : H) (rest : List H) :
    (spine selected (above :: rest)).adopt 1 #[0] = spine selected (above :: rest) := by
  have hsp := isSpine_spine selected (above :: rest)
  have htree : (spine selected (above :: rest)).tree.adopt 1 #[0] =
      (spine selected (above :: rest)).tree := by
    apply ElementTree.eq_of_node?
    intro i
    rw [ElementTree.node?_adopt]
    rcases Nat.lt_or_ge (above :: rest).length i with hi | hi
    · rw [ElementTree.node?_eq_none]
      · rfl
      · show (spine selected (above :: rest)).size ≤ i
        rw [hsp.size]
        exact hi
    · rw [hsp.node? i hi]
      match i with
      | 0 => simp [spineNode]
      | 1 => simp [spineNode]
      | i + 2 => simp
  unfold adopt
  congr 1

end Outline

theorem Shapes.eq_spine [DecidableEq H] {P : Platform H} {selected : H} {ancestors : List H}
    {context : Bool} {o : Outline H} {m k : Nat}
    (h : Shapes P selected ancestors context 0 o m k) : o = Outline.spine selected ancestors := by
  cases h with
  | alone _ hd =>
    obtain rfl := List.eq_nil_of_length_eq_zero (Nat.le_zero.mp hd.length_le)
    rfl
  | @among as k above rest slots l _ hanc hd hs =>
    obtain rfl := List.eq_nil_of_length_eq_zero (Nat.le_zero.mp hd.length_le)
    subst hanc
    have hnone : newcomers slots = [] := List.eq_nil_of_length_eq_zero (Nat.le_zero.mp hs.length_le)
    have hperm := positions_perm 0 ((above :: rest).length + 1 + ([] : List (Nat × H)).length)
      (filled slots)
    rw [countP_filled hs.countP_le, newcomers_filled, hnone] at hperm
    rw [hnone, List.perm_singleton.mp hperm]
    exact Outline.adopt_spine selected above rest

namespace Walker

theorem runnerNeeded_cases {w : Walker H} {o : Option Runner} (hr : w.runnerNeeded = .ok o) :
    o = none ∨ o = w.runner := by
  unfold runnerNeeded at hr
  split at hr
  · cases hr
  · next hw =>
    obtain rfl := Except.ok.inj hr
    exact .inr hw.symm
  · exact .inl (Except.ok.inj hr).symm

variable {w w' : Walker H} {e : WalkError}

theorem runnerNeeded_eq_error_iff : w.runnerNeeded = .error e ↔
    e = .noRunner ∧ w.options.mode = .test ∧ w.runner = none := by
  unfold runnerNeeded
  cases w.options.mode with
  | live => simp
  | test =>
    cases w.runner with
    | none => simp [eq_comm]
    | some r => simp

/-! ## Two walkers in step -/

/-- The runner of the walker, if there is one, runs these registrations. -/
def Registered (w : Walker H) (rs? : Option (List Registration)) : Prop :=
  Option.Rel Runner.Runs w.runner rs?

variable {rs? : Option (List Registration)}

theorem Registered.rules_eq (h : w.Registered rs?) :
    w.runner.map Runner.rules = rs?.map fun rs => rs.map Registration.rule := by
  unfold Registered at h
  generalize w.runner = o at h
  cases h with
  | none => rfl
  | some h => exact congrArg some h.rules_eq

theorem Registered.eq_none_iff (h : w.Registered rs?) : w.runner = none ↔ rs? = none := by
  unfold Registered at h
  generalize w.runner = o at h
  cases h <;> simp

theorem Registered.warmed (h : w.Registered rs?)
    (hw : w'.runner = w.runner ∨ w'.runner = w.runner.map Runner.warmed) : w'.Registered rs? := by
  unfold Registered at h ⊢
  generalize w.runner = o at h hw
  rcases hw with e | e
  · rw [e]
    exact h
  · rw [e]
    cases h with
    | none => exact .none
    | some h => exact .some h.warmed

def renewed (w : Walker H) (c : Counter) : Walker H where
  platform := w.platform
  options := w.options
  counter := c
  runner := w.runner.map Runner.renewed

theorem Registered.renewed (h : w.Registered rs?) (c : Counter) : (w.renewed c).Registered rs? := by
  unfold Registered at h ⊢
  show Option.Rel _ (w.runner.map Runner.renewed) rs?
  generalize w.runner = o at h
  cases h with
  | none => exact .none
  | some h => exact .some h.renewed

/-- The two walkers run the same registrations, or none. -/
def SameRules (w w' : Walker H) : Prop := ∃ rs?, w.Registered rs? ∧ w'.Registered rs?

/-- The second walker has a bound smaller by `d` and was asked for `d` elements less. -/
structure Shifted (d : Nat) (w w' : Walker H) : Prop where
  platform : w'.platform = w.platform
  options : w'.options = w.options
  counter : ∃ n, w.counter.Tracks (n + d) ∧ w'.counter.Tracks n ∧
    w.counter.bound = w'.counter.bound + d
  rules : w.SameRules w'

variable {d : Nat}

theorem Shifted.matches (h : Shifted d w w') : w.Matches w' where
  platform := h.platform
  mode := by rw [h.options]
  context := by rw [h.options]
  rules := by
    obtain ⟨rs?, hr, hr'⟩ := h.rules
    rw [hr.rules_eq, hr'.rules_eq]
  counter := by
    obtain ⟨n, htracks, htracks', hbound⟩ := h.counter
    exact Counter.alike_of_tracks htracks htracks' hbound

variable [DecidableEq H]

/-! ## What one walk leaves behind -/

/-- The draft of a walk once the ancestors are counted. -/
def opening (w : Walker H) (selected : H) : Draft H :=
  let (ancestors, climbed) := ancestry w.platform selected
  let uncounted := if decide (w.counter.count < w.counter.bound) then #[] else
    #[Notice.ancestorsOverLimit (w.depth selected)]
  (startDraft selected ancestors (w.counter.charge (w.depth selected) 0)
    (climbed ++ uncounted)).2.note (.transition .idle .ancestryResolved)

/-- How many elements the loops of a walk ask the budget for. -/
def requested (w : Walker H) (selected : H) : Nat :=
  let d := w.opening selected
  d.subtreeRequests w.platform 0 +
    if w.options.siblingContext then (d.addSubtree w.platform 0).siblingRequests w.platform 0 else 0

/-- How many elements a walk asks for, the ancestors included. One that is refused asks for none. -/
def requests (w : Walker H) (selected : H) : Nat :=
  match w.runnerNeeded with
  | .error _ => 0
  | .ok _ => w.depth selected + w.requested selected

structure Leaves (w : Walker H) (selected : H) (after : Walker H) : Prop where
  platform : after.platform = w.platform
  options : after.options = w.options
  counter : after.counter = w.counter.charge (w.depth selected) (w.requested selected)
  runner : after.runner = w.runner ∨ after.runner = w.runner.map Runner.warmed

variable {after : Walker H} {s s' : Schedule} {selected : H} {scan : ScanTree}
  {journal : Journal} {o : Option Runner}

theorem evaluate_ran (s : Schedule) (options : WalkOptions) (t : ElementTree) (o : Option Runner) :
    (evaluate s options t o).2.1 = o.map Runner.warmed := by
  cases o <;> rfl

theorem leaves_walkUnder (hr : w.runnerNeeded = .ok o)
    (h : w.walkUnder s selected = (.ok scan, after, journal)) : w.Leaves selected after := by
  have hadd := w.counter.tryAdd_charge (w.depth selected)
  have hopening : (w.opening selected).counter = w.counter.charge (w.depth selected) 0 := rfl
  unfold walkUnder at h
  rw [hr] at h
  simp only [depth] at hadd
  simp only [hadd] at h
  obtain ⟨-, rfl, -⟩ := h
  refine ⟨rfl, rfl, ?_, ?_⟩
  · show (if w.options.siblingContext then
        ((w.opening selected).addSubtree w.platform 0).addSiblings w.platform 0
      else (w.opening selected).addSubtree w.platform 0).counter = _
    unfold requested
    split
    · rw [Draft.counter_addSiblings, Draft.counter_addSubtree, hopening, ← Counter.spend_add]
      rfl
    · rw [Draft.counter_addSubtree, hopening]
      rfl
  · show ((evaluate s w.options _ o).2.1 <|> w.runner) = w.runner ∨
      ((evaluate s w.options _ o).2.1 <|> w.runner) = w.runner.map Runner.warmed
    rw [evaluate_ran]
    rcases runnerNeeded_cases hr with rfl | rfl
    · exact .inl rfl
    · cases w.runner with
      | none => exact .inl rfl
      | some r => exact .inr rfl

theorem walkUnder_cases (w : Walker H) (s : Schedule) (selected : H) :
    (∃ e, w.runnerNeeded = .error e ∧ w.walkUnder s selected = (.error e, w, {})) ∨
      ∃ o scan after journal, w.runnerNeeded = .ok o ∧
        w.walkUnder s selected = (.ok scan, after, journal) ∧ w.Leaves selected after := by
  cases hr : w.runnerNeeded with
  | error e => exact .inl ⟨e, rfl, walkUnder_error hr s selected⟩
  | ok o =>
    obtain ⟨scan, after, journal, c, u, m, k, hw, -⟩ := exists_shape hr s selected
    exact .inr ⟨o, scan, after, journal, rfl, hw, leaves_walkUnder hr hw⟩

theorem walkUnder_eq_error_iff : (w.walkUnder s selected).1 = .error e ↔
    w.runnerNeeded = .error e := by
  rcases walkUnder_cases w s selected with ⟨e', hr, hw⟩ | ⟨o, scan, after, journal, hr, hw, -⟩
  · rw [hw, hr]
    simp
  · rw [hw, hr]
    simp

theorem platform_walkUnder (w : Walker H) (s : Schedule) (selected : H) :
    (w.walkUnder s selected).2.1.platform = w.platform := by
  rcases walkUnder_cases w s selected with ⟨e', hr, hw⟩ | ⟨o, scan, after, journal, hr, hw, hl⟩
  · rw [hw]
  · rw [hw]
    exact hl.platform

/-! ## Walks in step -/

/-- A walk gives the same outcome on both sides and leaves them in step. -/
theorem Shifted.walkUnder (h : Shifted d w w') (steady : w.platform.Steady) (hs : s.Fair)
    (hs' : s'.Fair) (selected : H) :
    (w.walkUnder s selected).1 = (w'.walkUnder s' selected).1 ∧
      Shifted d (w.walkUnder s selected).2.1 (w'.walkUnder s' selected).2.1 := by
  cases hr : w.runnerNeeded with
  | error e =>
    have hr' : w'.runnerNeeded = .error e := by
      obtain ⟨rfl, hmode, hnone⟩ := runnerNeeded_eq_error_iff.mp hr
      obtain ⟨rs?, hr, hr'⟩ := h.rules
      rw [hr.eq_none_iff] at hnone
      exact runnerNeeded_error (by rw [h.options, hmode]) (hr'.eq_none_iff.mpr hnone)
    rw [walkUnder_error hr, walkUnder_error hr']
    exact ⟨rfl, h⟩
  | ok o =>
    obtain ⟨scan, after, journal, after', journal', n, hw, hw', hafter, hafter'⟩ :=
      h.matches.walkUnder steady hs hs' hr selected
    obtain ⟨o', hr', -⟩ := h.matches.runnerNeeded hr
    have hleaves := leaves_walkUnder hr hw
    have hleaves' := leaves_walkUnder hr' hw'
    obtain ⟨k, htracks, htracks', hbound⟩ := h.counter
    rw [hw, hw']
    refine ⟨rfl, ?_, ?_, ⟨k + w.depth selected + n, ?_, ?_, ?_⟩, ?_⟩
    · show after'.platform = after.platform
      rw [hleaves.platform, hleaves'.platform, h.platform]
    · show after'.options = after.options
      rw [hleaves.options, hleaves'.options, h.options]
    · show after.counter.Tracks _
      have hcharged := htracks.charge (w.depth selected) n
      rw [hafter]
      rwa [show k + w.depth selected + n + d = k + d + w.depth selected + n by omega]
    · show after'.counter.Tracks _
      rw [hafter']
      exact htracks'.charge (w.depth selected) n
    · show after.counter.bound = after'.counter.bound + d
      rw [hafter, hafter', Counter.bound_charge, Counter.bound_charge, hbound]
    · obtain ⟨rs?, hrs, hrs'⟩ := h.rules
      exact ⟨rs?, hrs.warmed hleaves.runner, hrs'.warmed hleaves'.runner⟩

def outcomes (w : Walker H) : List (Schedule × H) → List (Except WalkError ScanTree)
  | [] => []
  | (s, selected) :: ws => (w.walkUnder s selected).1 :: (w.walkUnder s selected).2.1.outcomes ws

/-- All walks from the same elements have the same outcomes on both sides. -/
theorem Shifted.outcomes_eq {ws ws' : List (Schedule × H)} (h : Shifted d w w')
    (steady : w.platform.Steady) (hws : ∀ x ∈ ws, x.1.Fair) (hws' : ∀ x ∈ ws', x.1.Fair)
    (hsame : ws.map Prod.snd = ws'.map Prod.snd) : w.outcomes ws = w'.outcomes ws' := by
  induction ws generalizing w w' ws' with
  | nil =>
    obtain rfl := List.map_eq_nil_iff.mp hsame.symm
    rfl
  | cons x ws ih =>
    cases ws' with
    | nil => cases hsame
    | cons x' ws' =>
      obtain ⟨s, selected⟩ := x
      obtain ⟨s', selected'⟩ := x'
      obtain ⟨rfl, hrest⟩ : selected = selected' ∧ ws.map Prod.snd = ws'.map Prod.snd := by
        simpa using hsame
      rw [List.forall_mem_cons] at hws hws'
      obtain ⟨heq, hshift⟩ := h.walkUnder steady hws.1 hws'.1 selected
      have hplatform : (w.walkUnder s selected).2.1.platform.Steady := by
        rwa [platform_walkUnder]
      rw [outcomes, outcomes, heq, ih hshift hplatform hws.2 hws'.2 hrest]

/-! ## Histories -/

inductive Event (H : Type)
  | walk (s : Schedule) (selected : H)
  | reset

def perform (w : Walker H) : Event H → Walker H
  | .walk s selected => (w.walkUnder s selected).2.1
  | .reset => w.resetCounter

/-- How many elements were asked for since the last reset, where it was `total` before. -/
def asked (w : Walker H) (total : Nat) : Event H → Nat
  | .walk _ selected => total + w.requests selected
  | .reset => 0

def track (x : Walker H × Nat) (e : Event H) : Walker H × Nat := (x.1.perform e, x.1.asked x.2 e)

/-- The walker after a history, and how many elements it was asked for since the last reset. -/
def history (w : Walker H) (es : List (Event H)) : Walker H × Nat := es.foldl track (w, 0)

/-- The walker `v` came from `w` and was asked for `total` elements since the last reset. -/
structure Kept (w v : Walker H) (total : Nat) : Prop where
  platform : v.platform = w.platform
  options : v.options = w.options
  bound : v.counter.bound = w.counter.bound
  tracks : v.counter.Tracks total
  rules : w.SameRules v

variable {v : Walker H} {total : Nat}

theorem Kept.perform (h : w.Kept v total) (e : Event H) :
    w.Kept (v.perform e) (v.asked total e) := by
  cases e with
  | reset => exact ⟨h.platform, h.options, h.bound, h.tracks.reset, h.rules⟩
  | walk s selected =>
    rcases walkUnder_cases v s selected with ⟨e', hr, hw⟩ | ⟨o, scan, after, journal, hr, hw, hl⟩
    · rw [Walker.perform, asked, requests, hr, hw]
      exact h
    · have htracks := h.tracks.charge (v.depth selected) (v.requested selected)
      rw [Walker.perform, asked, requests, hr, hw]
      refine ⟨hl.platform.trans h.platform, hl.options.trans h.options, ?_, ?_, ?_⟩
      · show after.counter.bound = _
        rw [hl.counter, Counter.bound_charge, h.bound]
      · show after.counter.Tracks (total + (v.depth selected + v.requested selected))
        rwa [hl.counter, ← Nat.add_assoc]
      · obtain ⟨rs?, hrs, hrs'⟩ := h.rules
        exact ⟨rs?, hrs, hrs'.warmed hl.runner⟩

theorem Kept.foldl_track {x : Walker H × Nat} (h : w.Kept x.1 x.2) (es : List (Event H)) :
    w.Kept (es.foldl track x).1 (es.foldl track x).2 := by
  induction es generalizing x with
  | nil => exact h
  | cons e es ih => exact ih (x := track x e) (h.perform e)

end Walker

/-- The elements of a scan are the selected element and its ancestors, with what their handles are
read as. -/
structure ScanTree.Bare [DecidableEq H] (scan : ScanTree) (P : Platform H) (selected : H) :
    Prop where
  selected_eq : scan.selected = 0
  topMost_eq : scan.topMost = (ancestry P selected).1.length
  size_eq : scan.tree.size = (ancestry P selected).1.length + 1
  node? : ∀ i h, (selected :: (ancestry P selected).1)[i]? = some h →
    scan.tree.node? i = some (P.settle h (Outline.spineNode (ancestry P selected).1.length i))

namespace Walker

variable [DecidableEq H]

/-- What a walker with a bound does after a history that led to `v` and asked for `total` elements
since the last reset. -/
structure Continues (w v : Walker H) (bound : Int) (total : Nat) : Prop where
  attempts : v.counter.attempts = min total Text.int32Max
  /-- Below the bound further walks are those of a new walker with the rest of it. -/
  rest : (total : Int) < bound → ∃ c, Counter.ofBound (bound - total) = .ok c ∧
    ∀ ws ws' : List (Schedule × H), (∀ x ∈ ws, x.1.Fair) → (∀ x ∈ ws', x.1.Fair) →
      ws.map Prod.snd = ws'.map Prod.snd → v.outcomes ws = (w.renewed c).outcomes ws'
  /-- From the bound on a walk gives the selected element and its ancestors. -/
  spent : bound ≤ total → ∀ s selected scan,
    (v.walkUnder s selected).1 = .ok scan → scan.Bare w.platform selected
  refused : ∀ s selected e, (v.walkUnder s selected).1 = .error e ↔
    e = .noRunner ∧ w.options.mode = .test ∧ w.runner = none
  unchanged : ∀ s selected e, (v.walkUnder s selected).1 = .error e →
    (v.walkUnder s selected).2.1 = v

variable {w v : Walker H} {total : Nat} {b : Int}

theorem Kept.bare (h : w.Kept v total) (steady : w.platform.Steady) (hle : w.counter.bound ≤ total)
    {s : Schedule} {selected : H} {scan : ScanTree}
    (hscan : (v.walkUnder s selected).1 = .ok scan) : scan.Bare w.platform selected := by
  cases hr : v.runnerNeeded with
  | error e =>
    rw [walkUnder_error hr] at hscan
    cases hscan
  | ok o =>
    obtain ⟨scan', after, journal, c, u, m, k, hw, hd⟩ := exists_shape hr s selected
    rw [hw] at hscan
    obtain rfl := Except.ok.inj hscan
    have htracks := h.tracks.charge (v.depth selected) 0
    have hzero : c.remaining = 0 := by
      rw [hd.counter_eq.1, htracks.remaining_eq, Counter.bound_charge, h.bound]
      omega
    have hshapes := hd.shapes
    rw [hzero, h.platform] at hshapes
    obtain rfl := hshapes.eq_spine
    obtain ⟨order, ht, -⟩ := hd.populated
    rw [h.platform] at ht
    have hsp := Outline.isSpine_spine selected (ancestry w.platform selected).1
    refine ⟨(scan_eq hr hw).1, ?_, ?_, fun i k hk => ?_⟩
    · rw [hd.topMost, h.platform]
    · rw [ht]
      exact (Outline.sameLinks_populate ..).size.trans hsp.size
    · have hi : i ≤ (ancestry w.platform selected).1.length := by
        have hlt := (List.getElem?_eq_some_iff.mp hk).1
        rw [List.length_cons] at hlt
        omega
      rw [ht]
      refine Outline.node?_populate steady ?_ _ _ (hsp.node? i hi) ?_
      · exact Outline.unread_spine selected _
      rw [← Array.getElem?_toList, hsp.handles]
      exact hk

/-- After any history a walker with a bound goes on as what was asked for since the last reset
says. -/
theorem continues_history (hb : Counter.ofBound b = .ok w.counter) (steady : w.platform.Steady)
    {rs? : Option (List Registration)} (hr : w.Registered rs?) (es : List (Event H)) :
    w.Continues (w.history es).1 b (w.history es).2 := by
  have hstart : w.Kept w 0 := ⟨rfl, rfl, rfl, Counter.tracks_ofBound hb, ⟨rs?, hr, hr⟩⟩
  have hkept : w.Kept (w.history es).1 (w.history es).2 := Kept.foldl_track (x := (w, 0)) hstart es
  have hbound := Counter.bound_ofBound hb
  generalize (w.history es).1 = v at hkept ⊢
  generalize (w.history es).2 = total at hkept ⊢
  have hneeded : ∀ e, v.runnerNeeded = .error e ↔
      e = .noRunner ∧ w.options.mode = .test ∧ w.runner = none := fun e => by
    obtain ⟨rs?, hrs, hrs'⟩ := hkept.rules
    rw [runnerNeeded_eq_error_iff, hkept.options, hrs.eq_none_iff, hrs'.eq_none_iff]
  refine
    { attempts := hkept.tracks.attempts
      rest := fun hlt => ?_
      spent := fun hle s selected scan hscan => hkept.bare steady (by omega) hscan
      refused := fun s selected e => walkUnder_eq_error_iff.trans (hneeded e)
      unchanged := fun s selected e he => ?_ }
  · have hlt32 := hkept.tracks.bound_lt
    rw [hkept.bound] at hlt32
    have hrest : Counter.ofBound (b - total) = .ok ⟨(b - total).toNat, 0, 0⟩ :=
      Counter.ofBound_eq_ok_iff.mpr ⟨by omega, rfl⟩
    refine ⟨_, hrest, fun ws ws' hws hws' hsame => ?_⟩
    have hshift : Shifted total v (w.renewed ⟨(b - total).toNat, 0, 0⟩) := by
      refine ⟨hkept.platform.symm, hkept.options.symm, ⟨0, ?_, Counter.tracks_ofBound hrest, ?_⟩, ?_⟩
      · rw [Nat.zero_add]
        exact hkept.tracks
      · show v.counter.bound = (b - total).toNat + total
        rw [hkept.bound]
        omega
      · obtain ⟨rs?, hrs, hrs'⟩ := hkept.rules
        exact ⟨rs?, hrs', hrs.renewed _⟩
    exact hshift.outcomes_eq (hkept.platform ▸ steady) hws hws' hsame
  · rw [walkUnder_error (walkUnder_eq_error_iff.mp he)]

/-- Two walks after a reset in a loop of siblings ask for three elements each, so that of a bound of
nine there are three left. -/
theorem continues_history_looping :
    ∃ v, v = (Report.loopingTest.history [.walk .inOrder 2, .reset, .walk .inOrder 1,
        .walk .inOrder 1]).1 ∧
      Report.loopingTest.Continues v 9 6 := by
  have htotal : (Report.loopingTest.history [.walk .inOrder 2, .reset, .walk .inOrder 1,
      .walk .inOrder 1]).2 = 6 := by decide
  have hrs : Report.loopingTest.Registered (some Report.mixedRegistrations) := .some ⟨rfl, .fresh⟩
  refine ⟨_, rfl, ?_⟩
  rw [← htotal]
  exact continues_history (b := 9) rfl (fun past past' h => rfl) hrs _

end Walker

end UiConformance
