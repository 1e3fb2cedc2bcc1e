import UiConformance.Proofs.Evaluation
import UiConformance.Proofs.Requests

/-!
# What the outcome of a walk depends on

The shape of a walk is determined by what is left of the budget after the ancestors; how many
elements cannot be read by their handles; the results by the rules and the tree. So neither the
order in which the parallel phases visit the elements, nor the handles that were read before, nor
how the counter came to leave what it leaves, nor which rules are built already, can be told from
the outcome: `Matches.walkUnder`.
-/

namespace UiConformance

variable {H : Type}

/-! ## The shape -/

theorem Descends.unique {P : Platform H} {b n p : Nat} {c : Option H} {as bs : List (Nat × H)}
    {k l : Nat} (h : Descends P b n p c as k) (h' : Descends P b n p c bs l) :
    as = bs ∧ k = l := by
  induction h generalizing bs l with
  | done =>
    cases h'
    exact ⟨rfl, rfl⟩
  | refused =>
    cases h'
    exact ⟨rfl, rfl⟩
  | admitted _ _ ih₁ ih₂ =>
    cases h' with
    | admitted h₁ h₂ =>
      obtain ⟨rfl, rfl⟩ := ih₁ h₁
      obtain ⟨rfl, rfl⟩ := ih₂ h₂
      exact ⟨rfl, rfl⟩

theorem Sweeps.unique {P : Platform H} {selected : H} {b : Nat} {seen : Bool} {c : Option H}
    {slots slots' : List (Option H)} {k l : Nat} (h : Sweeps P selected b seen c slots k)
    (h' : Sweeps P selected b seen c slots' l) : slots = slots' ∧ k = l := by
  induction h generalizing slots' l with
  | finished =>
    cases h'
    exact ⟨rfl, rfl⟩
  | again =>
    cases h' with
    | again => exact ⟨rfl, rfl⟩
    | refused hne => exact absurd rfl hne
    | admitted hne => exact absurd rfl hne
  | selected _ ih =>
    cases h' with
    | selected h' =>
      obtain ⟨rfl, rfl⟩ := ih h'
      exact ⟨rfl, rfl⟩
    | refused hne => exact absurd rfl hne
    | admitted hne => exact absurd rfl hne
  | refused hne =>
    cases h' with
    | again => exact absurd rfl hne
    | selected => exact absurd rfl hne
    | refused => exact ⟨rfl, rfl⟩
  | admitted hne _ ih =>
    cases h' with
    | again => exact absurd rfl hne
    | selected => exact absurd rfl hne
    | admitted _ h' =>
      obtain ⟨rfl, rfl⟩ := ih h'
      exact ⟨rfl, rfl⟩

theorem Shapes.unique [DecidableEq H] {P : Platform H} {selected : H} {ancestors : List H}
    {context : Bool} {b : Nat} {o o' : Outline H} {m m' k k' : Nat}
    (h : Shapes P selected ancestors context b o m k)
    (h' : Shapes P selected ancestors context b o' m' k') : o = o' ∧ m = m' ∧ k = k' := by
  cases h with
  | alone hno hd =>
    cases h' with
    | alone _ hd' =>
      obtain ⟨rfl, rfl⟩ := hd.unique hd'
      exact ⟨rfl, rfl, rfl⟩
    | among hyes hanc =>
      rcases hno with e | e
      · rw [hyes] at e
        cases e
      · rw [hanc] at e
        cases e
  | among hyes hanc hd hs =>
    cases h' with
    | alone hno =>
      rcases hno with e | e
      · rw [hyes] at e
        cases e
      · rw [hanc] at e
        cases e
    | among _ hanc' hd' hs' =>
      obtain ⟨rfl, rfl⟩ := List.cons.inj (hanc.symm.trans hanc')
      obtain ⟨rfl, rfl⟩ := hd.unique hd'
      obtain ⟨rfl, rfl⟩ := hs.unique hs'
      exact ⟨rfl, rfl, rfl⟩

/-! ## The readings -/

theorem ElementTree.eq_of_node? {t t' : ElementTree} (h : ∀ i, t.node? i = t'.node? i) : t = t' := by
  obtain ⟨nodes⟩ := t
  obtain ⟨nodes'⟩ := t'
  exact congrArg ElementTree.mk (Array.ext_getElem? h)

/-- A reading of the handle fails. -/
def Platform.fails (P : Platform H) (h : H) : Bool :=
  match P.read [] h with
  | .ok _ => false
  | .error _ => true

theorem Platform.fails_of_ok {P : Platform H} {h : H} {r : Reading} (hr : P.read [] h = .ok r) :
    P.fails h = false := by
  unfold fails
  rw [hr]

theorem Platform.fails_of_error {P : Platform H} {h : H} {e : PlatformError}
    (hr : P.read [] h = .error e) : P.fails h = true := by
  unfold fails
  rw [hr]

namespace Filling

variable {P : Platform H} {o : Outline H} {f : Filling H} {k : Nat}

/-- From `k` on the elements whose handles cannot be read are as they were, and those before `k`
were given up. -/
structure Owes (P : Platform H) (o : Outline H) (k : Nat) (f : Filling H) : Prop where
  kept : ∀ i n h, k ≤ i → o.tree.node? i = some n → o.handles[i]? = some h → P.fails h = true →
    f.tree.node? i = some n
  unpopulated : f.unpopulated = (o.handles.toList.take k).countP P.fails

theorem Owes.attempt (steady : P.Steady) (hf : Owes P o 0 f) (j : Nat) :
    Owes P o 0 (attempt P o.handles f j) := by
  rcases attempt_cases P o.handles f j with ⟨ht, hu⟩ | ⟨h', r, hh', hr, e⟩
  · refine ⟨fun i n h hi hn hh hfail => ?_, hu.trans hf.unpopulated⟩
    rw [ht]
    exact hf.kept i n h hi hn hh hfail
  · rw [e]
    refine ⟨fun i n h hi hn hh hfail => ?_, hf.unpopulated⟩
    have hij : j ≠ i := by
      rintro rfl
      obtain rfl := Option.some.inj (hh'.symm.trans hh)
      rw [steady f.past []] at hr
      rw [Platform.fails_of_ok hr] at hfail
      cases hfail
    exact ((ElementTree.node?_modify ..).trans (if_neg hij)).trans (hf.kept i n h hi hn hh hfail)

theorem Owes.finish (steady : P.Steady) (fresh : o.Unread) (hk : k < o.size) (hf : Owes P o k f) :
    Owes P o (k + 1) (finish P o.handles f k) := by
  have hsize : k < o.handles.size := by
    rw [o.aligned]
    exact hk
  obtain ⟨n, hn⟩ := ElementTree.exists_node? hk
  obtain ⟨h, hh⟩ : ∃ h, o.handles[k]? = some h := ⟨_, Array.getElem?_eq_getElem hsize⟩
  have hcount : (o.handles.toList.take (k + 1)).countP P.fails =
      f.unpopulated + if P.fails h then 1 else 0 := by
    rw [List.take_add_one, List.countP_append, ← hf.unpopulated, Array.getElem?_toList, hh]
    simp [List.countP_cons]
  refine ⟨fun i m h' hi hm hh' hfail => ?_, ?_⟩
  · rw [node?_finish_of_ne P o.handles f (by omega)]
    exact hf.kept i m h' (by omega) hm hh' hfail
  · rw [hcount]
    cases hr : P.read [] h with
    | error c =>
      -- The element is as it was, so it is asked for and given up.
      have hfail := Platform.fails_of_error hr
      have hkept := hf.kept k n h (Nat.le_refl k) hn hh hfail
      rw [← steady f.past []] at hr
      rw [finish_error hkept (fresh k n hn) hh hr, hfail]
      rfl
    | ok r =>
      rw [Platform.fails_of_ok hr]
      rcases finish_cases P o.handles f k with e | ⟨m, h', -, -, hh', ⟨r', -, e⟩ | ⟨c, hc, e⟩⟩
      · rw [e]
        rfl
      · rw [e]
        rfl
      · obtain rfl := Option.some.inj (hh'.symm.trans hh)
        rw [steady f.past [], hr] at hc
        cases hc

theorem owes_attempts (steady : P.Steady) (is : List Nat) (hf : Owes P o 0 f) :
    Owes P o 0 (is.foldl (Filling.attempt P o.handles) f) := by
  induction is generalizing f with
  | nil => exact hf
  | cons i is ih => exact ih (hf.attempt steady i)

theorem owes_finishes (steady : P.Steady) (fresh : o.Unread) (hf : Owes P o 0 f) {k : Nat}
    (hk : k ≤ o.size) : Owes P o k ((List.range k).foldl (Filling.finish P o.handles) f) := by
  induction k with
  | zero => exact hf
  | succ k ih =>
    rw [List.range_succ, List.foldl_append]
    exact (ih (by omega)).finish steady fresh hk

end Filling

namespace Outline

variable {P : Platform H} {o : Outline H}

/-- On a steady platform the elements left without properties are those whose handles cannot be
read. -/
theorem unpopulated_populate_eq (steady : P.Steady) (fresh : o.Unread) (past : List H)
    (order : Option (List Nat)) :
    (o.populate P past order).unpopulated = o.handles.toList.countP P.fails := by
  have hstart : Filling.Owes P o 0 { tree := o.tree, past } :=
    ⟨fun i n h _ hn _ _ => hn, rfl⟩
  have hall := Filling.owes_finishes steady fresh
    (Filling.owes_attempts steady (order.getD []) hstart) (Nat.le_refl o.size)
  have hsize : o.size = o.handles.toList.length := by
    rw [Array.length_toList, o.aligned]
    rfl
  refine hall.unpopulated.trans ?_
  rw [hsize, List.take_length]

theorem tree_populate_congr (steady : P.Steady) (fresh : o.Unread) (past past' : List H)
    (order order' : Option (List Nat)) :
    (o.populate P past order).tree = (o.populate P past' order').tree := by
  apply ElementTree.eq_of_node?
  intro i
  rcases Nat.lt_or_ge i o.tree.size with hi | hi
  · obtain ⟨n, hn⟩ := ElementTree.exists_node? hi
    obtain ⟨h, hh⟩ : ∃ h, o.handles[i]? = some h :=
      ⟨_, Array.getElem?_eq_getElem (by rw [o.aligned]; exact hi)⟩
    rw [node?_populate steady fresh past order hn hh, node?_populate steady fresh past' order' hn hh]
  · have hsize := (o.sameLinks_populate P past order).size
    have hsize' := (o.sameLinks_populate P past' order').size
    rw [ElementTree.node?_eq_none (by omega), ElementTree.node?_eq_none (by omega)]

end Outline

/-! ## The results -/

namespace Walker

theorem results_evaluate {s : Schedule} (hs : s.Fair) (options : WalkOptions) (t : ElementTree)
    (r : Runner) :
    (evaluate s options t (some r)).1.toList = t.elements.map fun e => (resultsOf r.rules e).1 := by
  have horder : (if options.parallel then s.evaluate t.size else List.range t.size).Perm
      (List.range t.size) := by
    split
    · exact (hs t.size).2
    · exact .refl _
  exact Evaluation.results_run r.rules t horder

theorem results_evaluate_congr {s s' : Schedule} (hs : s.Fair) (hs' : s'.Fair)
    (options options' : WalkOptions) (t : ElementTree) {o o' : Option Runner}
    (h : o.map Runner.rules = o'.map Runner.rules) :
    (evaluate s options t o).1 = (evaluate s' options' t o').1 := by
  cases o with
  | none =>
    cases o' with
    | none => rfl
    | some r' => cases h
  | some r =>
    cases o' with
    | none => cases h
    | some r' =>
      have hrules : r.rules = r'.rules := Option.some.inj h
      apply Array.toList_inj.mp
      rw [results_evaluate hs, results_evaluate hs', hrules]

end Walker

/-! ## The budget -/

namespace Counter

/-- The counter after `depth` elements were asked for at once and `n` one by one, as a walk does. -/
def charge (c : Counter) (depth n : Nat) : Counter := (c.serve (.several depth)).2.spend n

/-- The two leave the same to a walk and find the same walks too long. -/
structure Alike (c c' : Counter) : Prop where
  remaining : ∀ depth n, (c.charge depth n).remaining = (c'.charge depth n).remaining
  exceeded : ∀ depth n, (c.charge depth n).exceeded = (c'.charge depth n).exceeded

variable {c c' : Counter} {total : Nat}

theorem Alike.refl (c : Counter) : c.Alike c := ⟨fun _ _ => rfl, fun _ _ => rfl⟩

theorem tryAdd_charge (c : Counter) (n : Nat) :
    c.tryAdd n = .ok (decide (c.count < c.bound), c.charge n 0) := by
  rw [charge, serve_several_natCast, tryAdd_natCast]
  rfl

theorem Tracks.charge (h : c.Tracks total) (depth n : Nat) :
    (c.charge depth n).Tracks (total + depth + n) := by
  have hserved := h.serve (.several depth)
  rw [Request.addTo, Int.toNat_natCast] at hserved
  exact hserved.spend n

theorem bound_charge (c : Counter) (depth n : Nat) : (c.charge depth n).bound = c.bound := by
  rw [Counter.charge, bound_spend, bound_serve]

/-- What was spent of one bound may be taken off the other. -/
theorem alike_of_tracks {d : Nat} (h : c.Tracks (total + d)) (h' : c'.Tracks total)
    (hb : c.bound = c'.bound + d) : c.Alike c' := by
  refine ⟨fun depth n => ?_, fun depth n => ?_⟩
  · rw [(h.charge depth n).remaining_eq, (h'.charge depth n).remaining_eq, bound_charge,
      bound_charge]
    omega
  · rw [Bool.eq_iff_iff, (h.charge depth n).exceeded_iff, (h'.charge depth n).exceeded_iff,
      bound_charge, bound_charge]
    omega

end Counter

/-! ## Walks -/

attribute [ext] ScanTree

namespace Walker

/-- The two walkers have the same task: nothing that an outcome depends on tells them apart. -/
structure Matches (w w' : Walker H) : Prop where
  platform : w'.platform = w.platform
  mode : w'.options.mode = w.options.mode
  context : w'.options.siblingContext = w.options.siblingContext
  rules : w.runner.map Runner.rules = w'.runner.map Runner.rules
  counter : w.counter.Alike w'.counter

variable {w w' after after' : Walker H} {o : Option Runner}

theorem runnerNeeded_error (hm : w.options.mode = .test) (hr : w.runner = none) :
    w.runnerNeeded = .error .noRunner := by
  rw [runnerNeeded, hm, hr]

theorem runnerNeeded_live (hm : w.options.mode = .live) : w.runnerNeeded = .ok none := by
  rw [runnerNeeded, hm]

theorem Matches.runnerNeeded (h : w.Matches w') (hr : w.runnerNeeded = .ok o) :
    ∃ o', w'.runnerNeeded = .ok o' ∧ o.map Runner.rules = o'.map Runner.rules := by
  cases hm : w.options.mode with
  | live =>
    rw [runnerNeeded_live hm] at hr
    obtain rfl := Except.ok.inj hr
    exact ⟨none, runnerNeeded_live (h.mode.trans hm), rfl⟩
  | test =>
    have hrules := h.rules
    cases hw : w.runner with
    | none =>
      rw [runnerNeeded_error hm hw] at hr
      cases hr
    | some r =>
      rw [runnerNeeded_test hm hw] at hr
      obtain rfl := Except.ok.inj hr
      rw [hw] at hrules
      cases hw' : w'.runner with
      | none =>
        rw [hw'] at hrules
        cases hrules
      | some r' =>
        rw [hw'] at hrules
        exact ⟨some r', runnerNeeded_test (h.mode.trans hm) hw', hrules⟩

variable [DecidableEq H] {s s' : Schedule} {selected : H} {scan : ScanTree}
  {journal : Journal}

/-- The number of ancestors that the counter is asked for at once. -/
def depth (w : Walker H) (selected : H) : Nat :=
  min (ancestry w.platform selected).1.length Text.int32Max

theorem Draws.counter_eq {c : Counter} {u : Outline H} {m k : Nat}
    (h : w.Draws selected scan after c u m k) :
    c = w.counter.charge (w.depth selected) 0 ∧
      after.counter = w.counter.charge (w.depth selected) (m + k) := by
  obtain ⟨b, hadd⟩ := h.counted
  rw [Counter.tryAdd_charge] at hadd
  obtain ⟨-, rfl⟩ := Prod.mk.inj (Except.ok.inj hadd)
  exact ⟨rfl, h.counter⟩

theorem walkUnder_error {e : WalkError} (hr : w.runnerNeeded = .error e) (s : Schedule)
    (selected : H) : w.walkUnder s selected = (.error e, w, {}) := by
  unfold walkUnder
  rw [hr]

/-- What a successful walk says beside its tree. -/
theorem scan_eq (hr : w.runnerNeeded = .ok o)
    (h : w.walkUnder s selected = (.ok scan, after, journal)) :
    scan.selected = 0 ∧ scan.mode = w.options.mode ∧
      scan.state = if o.isSome then .rulesEvaluated else .propertiesPopulated := by
  unfold walkUnder at h
  rw [hr] at h
  simp only at h
  split at h
  · cases h
  · simp only [Prod.mk.injEq, Except.ok.injEq] at h
    obtain ⟨rfl, -⟩ := h
    refine ⟨rfl, rfl, ?_⟩
    cases o <;> rfl

/-- On a steady platform two walks that draw the same read the same. -/
theorem Draws.readings_eq {scan' : ScanTree} {c c' : Counter} {u : Outline H} {m m' k k' : Nat}
    (h : w.Draws selected scan after c u m k) (h' : w'.Draws selected scan' after' c' u m' k')
    (hp : w'.platform = w.platform) (steady : w.platform.Steady) :
    scan.tree = scan'.tree ∧ scan.unpopulated = scan'.unpopulated := by
  have hunread := h.shapes.unread
  obtain ⟨order, ht, hu⟩ := h.populated
  obtain ⟨order', ht', hu'⟩ := h'.populated
  rw [hp] at ht' hu'
  constructor
  · rw [ht, ht']
    exact Outline.tree_populate_congr steady hunread ..
  · rw [hu, hu', Outline.unpopulated_populate_eq steady hunread,
      Outline.unpopulated_populate_eq steady hunread]

/-- Matching walkers give the same outcome on a steady platform, and charge their counters alike. -/
theorem Matches.walkUnder (h : w.Matches w') (steady : w.platform.Steady) (hs : s.Fair)
    (hs' : s'.Fair) (hr : w.runnerNeeded = .ok o) (selected : H) :
    ∃ scan after journal after' journal' n,
      w.walkUnder s selected = (.ok scan, after, journal) ∧
      w'.walkUnder s' selected = (.ok scan, after', journal') ∧
      after.counter = w.counter.charge (w.depth selected) n ∧
      after'.counter = w'.counter.charge (w.depth selected) n := by
  obtain ⟨o', hr', hrules⟩ := h.runnerNeeded hr
  obtain ⟨scan, after, journal, c, u, m, k, hw, hd⟩ := exists_shape hr s selected
  obtain ⟨scan', after', journal', c', u', m', k', hw', hd'⟩ := exists_shape hr' s' selected
  have hdepth : w'.depth selected = w.depth selected := by rw [depth, depth, h.platform]
  obtain ⟨rfl, hafter⟩ := hd.counter_eq
  obtain ⟨rfl, hafter'⟩ := hd'.counter_eq
  rw [hdepth] at hafter'
  -- The budgets after the ancestors are the same, so the outlines are.
  have hremaining := h.counter.remaining (w.depth selected) 0
  have hshapes' := hd'.shapes
  rw [h.platform, h.context, hdepth, ← hremaining] at hshapes'
  obtain ⟨rfl, rfl, rfl⟩ := hd.shapes.unique hshapes'
  obtain ⟨htree, hcount⟩ := hd.readings_eq hd' h.platform steady
  have hresults : scan.results = scan'.results := by
    rw [results_eq_evaluate hr hw, results_eq_evaluate hr' hw', htree]
    exact results_evaluate_congr hs hs' _ _ _ hrules
  have htop : scan.topMost = scan'.topMost := by rw [hd.topMost, hd'.topMost, h.platform]
  have htruncated : scan.truncated = scan'.truncated := by
    rw [hd.truncated, hd'.truncated, hafter, hafter', h.counter.exceeded]
  obtain ⟨hselected, hmode, hstate⟩ := scan_eq hr hw
  obtain ⟨hselected', hmode', hstate'⟩ := scan_eq hr' hw'
  have hsome : o.isSome = o'.isSome := by
    rw [← Option.isSome_map, hrules, Option.isSome_map]
  have hscan : scan = scan' := by
    apply ScanTree.ext htree hresults (hselected.trans hselected'.symm) htop
    · rw [hmode, hmode', h.mode]
    · rw [hstate, hstate', hsome]
    · exact htruncated
    · exact hcount
  subst hscan
  exact ⟨scan, after, journal, after', journal', m + k, hw, hw', hafter, hafter'⟩

end Walker

end UiConformance
