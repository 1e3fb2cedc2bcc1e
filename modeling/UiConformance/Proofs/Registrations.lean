import Mathlib.Data.List.Sort
import UiConformance.Proofs.Providers

/-!
# Registration tables

A table is accepted whole, or refused for its first faulty registration: one that lacks required
metadata, or one with the identifier of an earlier one. A registration that is both is told to lack
metadata. In an accepted table every identifier leads to its only registration.
-/

namespace UiConformance

/-! ## Metadata -/

namespace RuleMetadata

/-- The field has nothing but blanks. -/
def Lacks (m : RuleMetadata) (f : MetadataField) : Prop :=
  ∀ c ∈ (m.field f).toList, Text.isBlank c = true

/-- Every required field has a character that is not blank. -/
def Complete (m : RuleMetadata) : Prop :=
  ∀ f : MetadataField, ∃ c ∈ (m.field f).toList, Text.isBlank c = false

variable {m : RuleMetadata} {f : MetadataField} {fields : List MetadataField}

theorem mem_missing_iff : f ∈ m.missing ↔ m.Lacks f := by
  have hall : f ∈ MetadataField.all := by cases f <;> decide
  simp [missing, hall, Lacks, Text.hasInk]

theorem missing_eq_nil_iff : m.missing = [] ↔ m.Complete := by
  simp [List.eq_nil_iff_forall_not_mem, mem_missing_iff, Lacks, Complete]

/-- Fields in their order are those that are missing when they are the ones that are lacking. -/
theorem eq_missing_iff : fields = m.missing ↔
    fields.Sublist [.id, .description, .howToFix, .standard] ∧ ∀ f, f ∈ fields ↔ m.Lacks f := by
  have hsub : m.missing.Sublist [.id, .description, .howToFix, .standard] := List.filter_sublist
  have horder : [MetadataField.id, .description, .howToFix, .standard].Pairwise
      (·.ctorIdx < ·.ctorIdx) := by decide
  constructor
  · rintro rfl
    exact ⟨hsub, fun f => mem_missing_iff⟩
  · rintro ⟨hfields, hmem⟩
    have : Std.Irrefl fun f g : MetadataField => f.ctorIdx < g.ctorIdx := ⟨fun f => Nat.lt_irrefl _⟩
    exact (horder.sublist hfields).eq_of_mem_iff (horder.sublist hsub) fun f => by
      rw [hmem, mem_missing_iff]

end RuleMetadata

/-! ## Faults -/

namespace Registry

/-- The registration at the place lacks metadata or has the identifier of an earlier one. -/
def Faulty (rs : List Registration) (i : Nat) : Prop :=
  ∃ r, rs[i]? = some r ∧
    (¬ r.metadata.Complete ∨ ∃ j q, j < i ∧ rs[j]? = some q ∧ q.id = r.id)

/-- What is told of the registration at a place. -/
inductive Tells (rs : List Registration) (i : Nat) : RegistryError → Prop
  | incomplete {r : Registration} {fields : List MetadataField} :
      rs[i]? = some r → ¬ r.metadata.Complete →
      fields.Sublist [.id, .description, .howToFix, .standard] →
      (∀ f, f ∈ fields ↔ r.metadata.Lacks f) → Tells rs i (.missingMetadata i r.id fields)
  | duplicate {r q : Registration} {j : Nat} :
      rs[i]? = some r → r.metadata.Complete → j < i → rs[j]? = some q → q.id = r.id →
      Tells rs i (.duplicateRule r.id)

variable {rs before after : List Registration} {r : Registration} {i k : Nat} {e : RegistryError}
  {g : Registry}

theorem Tells.faulty (h : Tells rs i e) : Faulty rs i := by
  cases h with
  | incomplete hr hc _ _ => exact ⟨_, hr, .inl hc⟩
  | duplicate hr _ hj hq hid => exact ⟨_, hr, .inr ⟨_, _, hj, hq, hid⟩⟩

theorem exists_earlier_iff : (∃ j q, j < before.length ∧ (before ++ r :: after)[j]? = some q ∧
    q.id = r.id) ↔ r.id ∈ before.map Registration.id := by
  rw [List.mem_map]
  constructor
  · rintro ⟨j, q, hj, hq, hid⟩
    rw [List.getElem?_append_left hj] at hq
    exact ⟨q, List.mem_of_getElem? hq, hid⟩
  · rintro ⟨q, hq, hid⟩
    obtain ⟨j, hj, rfl⟩ := List.getElem_of_mem hq
    exact ⟨j, before[j], hj, by rw [List.getElem?_append_left hj, List.getElem?_eq_getElem hj], hid⟩

theorem faulty_length_iff : Faulty (before ++ r :: after) before.length ↔
    r.metadata.missing ≠ [] ∨ r.id ∈ before.map Registration.id := by
  rw [Faulty, List.getElem?_append_right (Nat.le_refl _), Nat.sub_self]
  simp only [List.getElem?_cons_zero, Option.some.injEq, exists_eq_left', exists_earlier_iff, ne_eq,
    RuleMetadata.missing_eq_nil_iff]

theorem tells_length_iff : Tells (before ++ r :: after) before.length e ↔
    r.metadata.missing ≠ [] ∧ e = .missingMetadata before.length r.id r.metadata.missing ∨
      r.metadata.missing = [] ∧ r.id ∈ before.map Registration.id ∧ e = .duplicateRule r.id := by
  have hat : (before ++ r :: after)[before.length]? = some r := by simp
  rw [ne_eq, RuleMetadata.missing_eq_nil_iff]
  constructor
  · rintro (⟨hr, hc, hfields, hmem⟩ | ⟨hr, hc, hj, hq, hid⟩)
    · obtain rfl := Option.some.inj (hat.symm.trans hr)
      rw [RuleMetadata.eq_missing_iff.mpr ⟨hfields, hmem⟩]
      exact .inl ⟨hc, rfl⟩
    · obtain rfl := Option.some.inj (hat.symm.trans hr)
      exact .inr ⟨hc, exists_earlier_iff.mp ⟨_, _, hj, hq, hid⟩, rfl⟩
  · rintro (⟨hc, rfl⟩ | ⟨hc, hid, rfl⟩)
    · obtain ⟨hfields, hmem⟩ := RuleMetadata.eq_missing_iff.mp (Eq.refl r.metadata.missing)
      exact .incomplete hat hc hfields hmem
    · obtain ⟨j, q, hj, hq, hid⟩ := exists_earlier_iff.mpr hid
      exact .duplicate hat hc hj hq hid

theorem tells_first_iff (hclean : ∀ j < k, ¬ Faulty rs j) (hk : Faulty rs k) :
    (∃ i, (∀ j < i, ¬ Faulty rs j) ∧ Tells rs i e) ↔ Tells rs k e := by
  constructor
  · rintro ⟨i, hi, ht⟩
    rcases Nat.lt_trichotomy i k with hlt | rfl | hgt
    · exact absurd ht.faulty (hclean i hlt)
    · exact ht
    · exact absurd hk (hi k hgt)
  · exact fun ht => ⟨k, hclean, ht⟩

theorem not_faulty_concat (hclean : ∀ j < before.length, ¬ Faulty (before ++ r :: after) j)
    (hr : ¬ Faulty (before ++ r :: after) before.length) :
    ∀ j < (before ++ [r]).length, ¬ Faulty (before ++ [r] ++ after) j := by
  intro j hj
  rw [List.append_assoc, List.singleton_append]
  rw [List.length_append, List.length_singleton] at hj
  rcases Nat.lt_succ_iff_lt_or_eq.mp hj with hj | rfl
  · exact hclean j hj
  · exact hr

/-- The pass over the rest of a table whose beginning has no fault. -/
theorem enter_eq_error_iff {index : OrderedMap String Nat}
    (hseen : ∀ id, (index.get? id).isSome ↔ id ∈ before.map Registration.id)
    (hclean : ∀ j < before.length, ¬ Faulty (before ++ rs) j) :
    enter before.length index rs = .error e ↔
      ∃ i, (∀ j < i, ¬ Faulty (before ++ rs) j) ∧ Tells (before ++ rs) i e := by
  -- what is entered moves to `before`, so that the table itself stays the same
  induction rs generalizing before index with
  | nil =>
    refine iff_of_false nofun ?_
    rintro ⟨i, -, ht⟩
    obtain ⟨r, hr, -⟩ := id ht.faulty
    rw [List.append_nil] at hr hclean ht
    exact hclean i (List.getElem?_eq_some_iff.mp hr).1 ht.faulty
  | cons r rs ih =>
    unfold enter
    by_cases hm : r.metadata.missing = []
    · by_cases hs : (index.get? r.id).isSome
      · have hdup := (hseen r.id).mp hs
        rw [if_neg (not_not_intro hm), if_pos hs,
          tells_first_iff hclean (faulty_length_iff.mpr (.inr hdup)), tells_length_iff]
        simp [hm, hdup, eq_comm]
      · have hr : ¬ Faulty (before ++ r :: rs) before.length := by
          rw [faulty_length_iff, not_or, ← hseen]
          exact ⟨not_not_intro hm, hs⟩
        have hseen (id : String) : ((index.insert r.id before.length).get? id).isSome ↔
            id ∈ (before ++ [r]).map Registration.id := by
          rw [OrderedMap.get?_insert, List.map_append, List.mem_append, ← hseen]
          by_cases hid : r.id = id <;> simp [hid, Ne.symm]
        have hrest := ih hseen (not_faulty_concat hclean hr)
        rw [if_neg (not_not_intro hm), if_neg hs]
        rwa [List.append_assoc, List.singleton_append, List.length_append,
          List.length_singleton] at hrest
    · rw [if_pos hm, tells_first_iff hclean (faulty_length_iff.mpr (.inl hm)), tells_length_iff]
      simp [hm, eq_comm]

theorem ofList_eq_error_iff :
    ofList rs = .error e ↔ ∃ i, (∀ j < i, ¬ Faulty rs j) ∧ Tells rs i e := by
  have hfirst := @enter_eq_error_iff rs [] e .empty (fun _ => iff_of_false nofun nofun) nofun
  rw [List.nil_append, List.length_nil] at hfirst
  rw [← hfirst, ofList]
  split
  next e' he => rw [he, Except.error.injEq, Except.error.injEq]
  next full hfull => exact iff_of_false nofun fun he => nomatch hfull.symm.trans he

/-! ## Tables -/

/-- The registration stands at the one place that has the identifier. -/
def Only (rs : List Registration) (id : String) (r : Registration) : Prop :=
  ∃ i : Nat, rs[i]? = some r ∧ r.id = id ∧
    ∀ (j : Nat) (q : Registration), rs[j]? = some q → q.id = id → j = i

/-- The table is accepted when no registration is faulty, and tells its first fault otherwise. -/
structure Validated (rs : List Registration) : Prop where
  accepted : (∃ g, ofList rs = .ok g) ↔
    (∀ r ∈ rs, r.metadata.Complete) ∧ rs.Pairwise fun q r => q.id ≠ r.id
  refused : ∀ e, ofList rs = .error e ↔ ∃ i, (∀ j < i, ¬ Faulty rs j) ∧ Tells rs i e
  found : ∀ g, ofList rs = .ok g → ∀ id r, g.registration? id = some r ↔ Only rs id r
  absent : ∀ g, ofList rs = .ok g → ∀ id, g.registration? id = none ↔ ∀ r ∈ rs, r.id ≠ id
  ids : ∀ g, ofList rs = .ok g → g.ids = rs.map Registration.id

theorem registration?_eq_some_iff {id : String} (h : (rs.map Registration.id).Nodup) :
    (Registry.of rs).registration? id = some r ↔ Only rs id r := by
  constructor
  · intro hr
    obtain ⟨hmem, hid⟩ := registration?_eq_some hr
    rw [registrations_of] at hmem
    obtain ⟨i, hi⟩ := List.mem_iff_getElem?.mp hmem
    refine ⟨i, hi, hid, fun j q hq hqid => ?_⟩
    have hj : j < (rs.map Registration.id).length := by
      rw [List.length_map]
      exact (List.getElem?_eq_some_iff.mp hq).1
    refine List.getElem?_inj hj h |>.mp ?_
    rw [List.getElem?_map, List.getElem?_map, hq, hi, Option.map_some, Option.map_some, hqid, hid]
  · rintro ⟨i, hi, rfl, -⟩
    exact registration?_id h (List.mem_of_getElem? hi)

theorem validated (rs : List Registration) : Validated rs where
  accepted := by
    simp only [ofList_eq_ok_iff, RuleMetadata.missing_eq_nil_iff, exists_eq_left, List.Nodup,
      List.pairwise_map]
  refused e := ofList_eq_error_iff
  found g hg id r := by
    obtain ⟨rfl, -, hnodup⟩ := ofList_eq_ok_iff.mp hg
    exact registration?_eq_some_iff hnodup
  absent g hg id := by
    obtain ⟨rfl, -, -⟩ := ofList_eq_ok_iff.mp hg
    simp [registration?_eq_none_iff, ids]
  ids g hg := by
    obtain ⟨rfl, -, -⟩ := ofList_eq_ok_iff.mp hg
    rfl

end Registry

end UiConformance
