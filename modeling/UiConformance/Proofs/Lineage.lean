import Mathlib.Data.List.Chain
import UiConformance.Proofs.Ascent

/-!
# Lineages

The ancestors of an element are its longest line of parents without a repetition: each is the parent
of the one before, and after the last there is no parent, or a call that fails, or a parent that is
among them already. Parents are arbitrary: a cycle may close at the element itself, at an inner
ancestor or at the last one, and the climb stops there.

`lineage_ancestry` says this of the climb among any finite set of handles that parents do not leave.
-/

namespace UiConformance

variable {H : Type}

namespace Platform

def HasParent (P : Platform H) (h parent : H) : Prop := P.navigate .parent h = .ok (some parent)

/-- A line of parents above an element, the nearest first, in which nothing occurs twice. -/
structure Line (P : Platform H) (selected : H) (ancestors : List H) : Prop where
  chain : (selected :: ancestors).IsChain P.HasParent
  nodup : (selected :: ancestors).Nodup

/-- A line that cannot be continued. The last of it is the element itself where there is no other. -/
structure Lineage (P : Platform H) (selected : H) (ancestors : List H) : Prop
    extends P.Line selected ancestors where
  ended : P.navigate .parent (ancestors.getLastD selected) = .ok none ∨
    (∃ e, P.navigate .parent (ancestors.getLastD selected) = .error e) ∨
    ∃ h ∈ selected :: ancestors, P.HasParent (ancestors.getLastD selected) h

variable {P : Platform H} {selected h : H} {as bs : List H}

theorem HasParent.unique {k : H} (h₁ : P.HasParent selected h) (h₂ : P.HasParent selected k) :
    h = k :=
  Option.some.inj (Except.ok.inj (h₁.symm.trans h₂))

theorem getLast?_cons_eq (selected : H) (as : List H) :
    (selected :: as).getLast? = some (as.getLastD selected) := by
  rw [List.getLast?_cons, List.getLastD_eq_getLast?]

theorem line_nil (P : Platform H) (selected : H) : P.Line selected [] :=
  ⟨.singleton selected, List.nodup_singleton selected⟩

theorem line_snoc_iff : P.Line selected (as ++ [h]) ↔
    P.Line selected as ∧ P.HasParent (as.getLastD selected) h ∧ h ∉ selected :: as := by
  have hchain : (selected :: (as ++ [h])).IsChain P.HasParent ↔
      (selected :: as).IsChain P.HasParent ∧ P.HasParent (as.getLastD selected) h := by
    rw [← List.cons_append, List.isChain_append, getLast?_cons_eq]
    simp
  have hnodup : (selected :: (as ++ [h])).Nodup ↔
      (selected :: as).Nodup ∧ h ∉ selected :: as := by
    rw [← List.cons_append, List.nodup_append_comm, List.singleton_append, List.nodup_cons]
    exact and_comm
  constructor
  · rintro ⟨hc, hn⟩
    exact ⟨⟨(hchain.mp hc).1, (hnodup.mp hn).1⟩, (hchain.mp hc).2, (hnodup.mp hn).2⟩
  · rintro ⟨⟨hc, hn⟩, hp, hnew⟩
    exact ⟨hchain.mpr ⟨hc, hp⟩, hnodup.mpr ⟨hn, hnew⟩⟩

/-- Every line is the beginning of a lineage, which is therefore the longest. -/
theorem Lineage.isPrefix (hl : P.Lineage selected as) (hb : P.Line selected bs) : bs <+: as := by
  induction bs using List.reverseRecOn with
  | nil => exact List.nil_prefix
  | append_singleton bs h ih =>
    obtain ⟨hline, hparent, hnew⟩ := line_snoc_iff.mp hb
    obtain ⟨rest, rfl⟩ := ih hline
    cases rest with
    | nil =>
      -- The line is all of the lineage, after which nothing is new.
      rw [List.append_nil] at hl
      rcases hl.ended with he | ⟨e, he⟩ | ⟨k, hk, he⟩
      · cases he.symm.trans hparent
      · cases he.symm.trans hparent
      · exact absurd (he.unique hparent ▸ hk) hnew
    | cons k rest =>
      have hk : P.HasParent (bs.getLastD selected) k := by
        have hchain := hl.chain
        rw [← List.cons_append, List.isChain_append, getLast?_cons_eq] at hchain
        exact hchain.2.2 _ rfl _ rfl
      obtain rfl := hk.unique hparent
      exact ⟨rest, by simp⟩

end Platform

/-! ## The climb -/

namespace Ascent

variable {P : Platform H} {selected : H} {a b : Ascent H} {as : List (Ascent H)}

/-- The ancestors found so far are a line, and the climb stands at its last. -/
structure Traces (P : Platform H) (selected : H) (a : Ascent H) : Prop where
  line : P.Line selected a.found
  current : a.current = a.found.getLastD selected

theorem Traces.start (P : Platform H) (selected : H) : Traces P selected ⟨[], selected⟩ :=
  ⟨Platform.line_nil P selected, rfl⟩

variable [DecidableEq H]

theorem Traces.step (h : step? P selected a = some b) (ha : Traces P selected a) :
    Traces P selected b := by
  obtain ⟨hn, hne, hnew, hfound⟩ := step?_eq_some_iff.mp h
  rw [ha.current] at hn
  refine ⟨?_, ?_⟩
  · rw [hfound]
    exact Platform.line_snoc_iff.mpr ⟨ha.line, hn, by simp [hne, hnew]⟩
  · rw [hfound, List.getLastD_concat]

/-- Where the climb stops, the line is a lineage. -/
theorem Traces.lineage (h : step? P selected a = none) (ha : Traces P selected a) :
    P.Lineage selected a.found := by
  refine ⟨ha.line, ?_⟩
  rw [← ha.current]
  unfold step? at h
  cases hn : P.navigate .parent a.current with
  | error e => exact .inr (.inl ⟨e, rfl⟩)
  | ok next =>
    cases next with
    | none => exact .inl rfl
    | some parent =>
      rw [hn] at h
      simp only at h
      split at h
      · next hold => exact .inr (.inr ⟨parent, List.mem_cons.mpr hold, hn⟩)
      · cases h

theorem Traces.lineage_of_loops (h : Loops (step? P selected) a as b) (ha : Traces P selected a) :
    P.Lineage selected b.found := by
  induction h with
  | stop hs => exact ha.lineage hs
  | turn hs _ ih => exact ih (ha.step hs)

end Ascent

variable [DecidableEq H] {P : Platform H} {selected : H} {S : Finset H}

/-- Among finitely many handles the loop over the parents of an element stops, whatever they are,
and has found the longest line of parents without a repetition. A platform that is high enough for
these handles has it as the ancestry. -/
theorem Platform.lineage_ancestry (hS : P.ParentsWithin S) (h : selected ∈ S) :
    ∃ turns last, Ascends P selected turns last ∧ P.Lineage selected last.found ∧
      (∀ ancestors, P.Line selected ancestors → ancestors <+: last.found) ∧
      (S.card ≤ P.height + 1 → (ancestry P selected).1 = last.found) := by
  obtain ⟨turns, last, hloops, hlt⟩ := Ascent.exists_loops hS h
  have hlineage := (Ascent.Traces.start P selected).lineage_of_loops hloops
  have hascends := Ascent.ascends hloops
  refine ⟨turns, last, hascends, hlineage, fun ancestors hl => hlineage.isPrefix hl, fun hh => ?_⟩
  rw [hascends.agree P (fun _ _ => rfl) (by omega)]

/-- The parents of 0 end in a cycle that does not lead back to it. -/
def knotted : Platform Nat where
  navigate
    | .parent, n => .ok (some (if n < 3 then n + 1 else 1))
    | _, _ => .ok none
  read _ _ := .ok {}
  height := 3

theorem parentsWithin_knotted : knotted.ParentsWithin {0, 1, 2, 3} := by
  intro h _ parent hp
  obtain rfl : (if h < 3 then h + 1 else 1) = parent := Option.some.inj (Except.ok.inj hp)
  simp only [Finset.mem_insert, Finset.mem_singleton]
  split <;> omega

theorem Platform.lineage_ancestry_knotted :
    0 ∈ ({0, 1, 2, 3} : Finset Nat) ∧ knotted.ParentsWithin {0, 1, 2, 3} ∧
      knotted.Lineage 0 [1, 2, 3] ∧ (ancestry knotted 0).1 = [1, 2, 3] := by
  have hmem : 0 ∈ ({0, 1, 2, 3} : Finset Nat) := by decide
  obtain ⟨turns, last, -, hlineage, -, hheight⟩ :=
    Platform.lineage_ancestry parentsWithin_knotted hmem
  have hfound : (ancestry knotted 0).1 = last.found := hheight (by decide)
  rw [← hfound] at hlineage
  exact ⟨hmem, parentsWithin_knotted, hlineage, rfl⟩

end UiConformance
