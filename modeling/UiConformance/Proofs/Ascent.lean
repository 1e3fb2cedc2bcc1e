import Mathlib.Data.Finset.Card
import UiConformance.Proofs.Calls
import UiConformance.Walk.Ancestry

/-!
# The climb as a loop

The ancestors of an element are found by a loop that asks for one parent after another and keeps no
count of them. It is stopped by a handle that occurs again, so that among finitely many handles it
ends whatever the parents are: the handles found so far are distinct. Where the height of the
platform covers the turns of the loop, `ancestry` is what the loop finds.
-/

namespace UiConformance

variable {H : Type}

/-- The ancestors found so far, and the last of them. -/
structure Ascent (H : Type) where
  found : List H := []
  current : H

/-- Parents of these handles are among them. -/
def Platform.ParentsWithin (P : Platform H) (S : Finset H) : Prop :=
  ∀ h ∈ S, ∀ parent, P.navigate .parent h = .ok (some parent) → parent ∈ S

namespace Ascent

def calls (a : Ascent H) : List (Navigation × H) := [(.parent, a.current)]

def ending (P : Platform H) (a : Ascent H) : Array Notice :=
  match P.navigate .parent a.current with
  | .error cause => #[.callFailed .parent cause]
  | .ok none => #[]
  | .ok (some _) => #[.ancestryCycle (a.found.length + 1)]

/-- The selected element and its ancestors so far are distinct handles of `S`, the last of them
included. -/
structure Within (S : Finset H) (selected : H) (a : Ascent H) : Prop where
  mem : ∀ h ∈ selected :: a.found, h ∈ S
  nodup : (selected :: a.found).Nodup
  current : a.current ∈ selected :: a.found

variable {P Q : Platform H} {selected : H} {a b : Ascent H} {as : List (Ascent H)} {S : Finset H}

theorem length_calls (as : List (Ascent H)) (b : Ascent H) :
    ((as ++ [b]).flatMap calls).length = as.length + 1 := by
  simp [List.length_flatMap, calls]

theorem ending_congr (ha : P.AgreeOn Q a.calls) : a.ending Q = a.ending P := by
  unfold ending
  rw [ha.head]

theorem Within.start (h : selected ∈ S) : Within S selected ⟨[], selected⟩ :=
  ⟨by simpa using h, List.nodup_singleton selected, List.mem_cons_self⟩

variable [DecidableEq H]

/-- Goes on to the parent, unless there is none or it occurs a second time. -/
def step? (P : Platform H) (selected : H) (a : Ascent H) : Option (Ascent H) :=
  match P.navigate .parent a.current with
  | .error _ => none
  | .ok none => none
  | .ok (some parent) =>
    if parent = selected ∨ parent ∈ a.found then none else some ⟨a.found ++ [parent], parent⟩

theorem step?_eq_some_iff : step? P selected a = some b ↔
    P.navigate .parent a.current = .ok (some b.current) ∧ b.current ≠ selected ∧
      b.current ∉ a.found ∧ b.found = a.found ++ [b.current] := by
  obtain ⟨found, current⟩ := a
  obtain ⟨found', current'⟩ := b
  unfold step?
  simp only
  constructor
  · intro h
    split at h
    · cases h
    · cases h
    · next parent hn =>
      split at h
      · cases h
      · next hnew =>
        cases h
        exact ⟨hn, fun e => hnew (.inl e), fun e => hnew (.inr e), rfl⟩
  · rintro ⟨hn, hne, hnew, rfl⟩
    rw [hn]
    exact if_neg (not_or.mpr ⟨hne, hnew⟩)

theorem step?_congr (ha : P.AgreeOn Q a.calls) : step? Q selected a = step? P selected a := by
  unfold step?
  rw [ha.head]

/-! ## The loop and the ancestry -/

theorem climb_some (h : step? P selected a = some b) (n : Nat) :
    climb P selected (n + 1) a.found a.current = climb P selected n b.found b.current := by
  obtain ⟨hn, hne, hnew, hfound⟩ := step?_eq_some_iff.mp h
  rw [climb, hn, hfound]
  exact if_neg (not_or.mpr ⟨hne, hnew⟩)

theorem climb_none (h : step? P selected a = none) (n : Nat) :
    climb P selected (n + 1) a.found a.current = (a.found, a.ending P) := by
  unfold step? at h
  unfold climb ending
  cases hn : P.navigate .parent a.current with
  | error cause => rfl
  | ok next =>
    cases next with
    | none => rfl
    | some parent =>
      rw [hn] at h
      simp only at h ⊢
      split at h
      · next hold => rw [if_pos hold]
      · cases h

/-- The limit of a climb is not noticed where it exceeds the turns of the loop. -/
theorem climb_of_loops (h : Loops (step? P selected) a as b) {n : Nat}
    (hn : as.length < n) : climb P selected n a.found a.current = (b.found, b.ending P) := by
  induction h generalizing n with
  | stop hs =>
    obtain ⟨n, rfl⟩ : ∃ m, n = m + 1 := ⟨n - 1, by omega⟩
    exact climb_none hs n
  | turn hs _ ih =>
    rw [List.length_cons] at hn
    obtain ⟨n, rfl⟩ : ∃ m, n = m + 1 := ⟨n - 1, by omega⟩
    rw [climb_some hs]
    exact ih (by omega)

/-! ## Finitely many handles -/

theorem Within.step (hS : P.ParentsWithin S) (h : step? P selected a = some b)
    (ha : Within S selected a) : Within S selected b := by
  obtain ⟨hn, hne, hnew, hfound⟩ := step?_eq_some_iff.mp h
  have hmem : b.current ∈ S := hS a.current (ha.mem _ ha.current) b.current hn
  have hfresh : b.current ∉ selected :: a.found := by simp [hne, hnew]
  have hgrown : selected :: b.found = (selected :: a.found) ++ [b.current] := by
    rw [hfound, List.cons_append]
  refine ⟨fun k hk => ?_, ?_, ?_⟩
  · rw [hgrown, List.mem_append, List.mem_singleton] at hk
    rcases hk with hk | rfl
    · exact ha.mem k hk
    · exact hmem
  · rw [hgrown, List.nodup_append]
    refine ⟨ha.nodup, List.nodup_singleton _, fun k hk l hl => ?_⟩
    obtain rfl := List.mem_singleton.mp hl
    exact fun e => hfresh (e ▸ hk)
  · rw [hgrown]
    simp

theorem Within.length_lt (h : Within S selected a) : a.found.length < S.card := by
  have hsub : (selected :: a.found).toFinset ⊆ S := fun k hk =>
    h.mem k (List.mem_toFinset.mp hk)
  have hcard := Finset.card_le_card hsub
  rwa [List.toFinset_card_of_nodup h.nodup] at hcard

/-- Among finitely many handles the loop has fewer turns than there are handles. -/
theorem exists_loops (hS : P.ParentsWithin S) (h : selected ∈ S) :
    ∃ as b, Loops (step? P selected) ⟨[], selected⟩ as b ∧ as.length < S.card := by
  obtain ⟨b, as, hloops, hle⟩ := exists_endsWithin (step? P selected) (Within S selected)
    (fun a => S.card - (a.found.length + 1)) (fun s t hs ha => ha.step hS hs)
    (fun s t hs ha => by
      have hlt := (ha.step hS hs).length_lt
      obtain ⟨-, -, -, hfound⟩ := step?_eq_some_iff.mp hs
      have hlength := congrArg List.length hfound
      rw [List.length_append, List.length_singleton] at hlength
      omega)
    (Within.start h)
  have hpos : 0 < S.card := Finset.card_pos.mpr ⟨selected, h⟩
  refine ⟨as, b, hloops, ?_⟩
  simp only [List.length_nil] at hle
  omega

end Ascent

/-- The loop over the parents of an element begins its turns in `as`, stops at `b`, and asks for
no other parents. -/
structure Ascends [DecidableEq H] (P : Platform H) (selected : H) (as : List (Ascent H))
    (b : Ascent H) : Prop where
  loops : Loops (Ascent.step? P selected) ⟨[], selected⟩ as b
  /-- Every platform that answers the same calls alike, the platform itself included, and is high
  enough for the turns of the loop, has the ancestry that the loop finds. -/
  agree : ∀ Q : Platform H, P.AgreeOn Q ((as ++ [b]).flatMap Ascent.calls) → as.length ≤ Q.height →
    ancestry Q selected = (b.found, b.ending P)

namespace Ascent

variable [DecidableEq H] {P : Platform H} {selected : H} {as : List (Ascent H)} {b : Ascent H}

theorem ascends (h : Loops (step? P selected) ⟨[], selected⟩ as b) : Ascends P selected as b where
  loops := h
  agree Q ha hheight := by
    have hloops : Loops (step? Q selected) ⟨[], selected⟩ as b :=
      h.congr fun u hu => step?_congr (ha.of_mem_flatMap hu)
    have hlast : P.AgreeOn Q b.calls := ha.of_mem_flatMap (by simp)
    rw [← ending_congr hlast]
    exact climb_of_loops hloops (Nat.lt_succ_of_le hheight)

end Ascent

end UiConformance
