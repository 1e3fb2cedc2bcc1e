import Mathlib.Data.List.Nodup
import UiConformance.Rule.Provider

/-!
# What providers hand out

A registry holds complete registrations with distinct identifiers. Whatever was asked of a provider
before, each of its instances was built from the registration of its identifier, so that all rules
are the registered ones in the order of registration.
-/

namespace UiConformance

/-- The rule that a registration builds. -/
def Registration.rule (r : Registration) : Rule := r.build r.metadata

/-! ## Registries -/

namespace Registry

variable {g : Registry} {rs : List Registration} {r : Registration} {id : String}

section Index

variable {index full : OrderedMap String Nat} {i : Nat}

theorem get?_places_of_notMem (h : id ∉ rs.map Registration.id) :
    (places i index rs).get? id = index.get? id := by
  induction rs generalizing i index with
  | nil => rfl
  | cons r rs ih =>
    rw [List.map_cons, List.mem_cons, not_or] at h
    rw [places, ih h.2, OrderedMap.get?_insert, if_neg (Ne.symm h.1)]

/-- The index leads from an identifier to a place that has it. -/
theorem exists_get?_places (i : Nat) (index : OrderedMap String Nat)
    (h : id ∈ rs.map Registration.id) :
    ∃ k r, (places i index rs).get? id = some (i + k) ∧ rs[k]? = some r ∧ r.id = id := by
  induction rs generalizing i index with
  | nil => cases h
  | cons r rs ih =>
    by_cases hrest : id ∈ rs.map Registration.id
    · obtain ⟨k, q, hk, hq, hid⟩ := ih (i + 1) (index.insert r.id i) hrest
      refine ⟨k + 1, q, ?_, hq, hid⟩
      rw [places, hk, Nat.add_assoc, Nat.add_comm 1 k]
    · obtain rfl := (List.mem_cons.mp h).resolve_right hrest
      refine ⟨0, r, ?_, rfl, rfl⟩
      rw [places, get?_places_of_notMem hrest, OrderedMap.get?_insert, if_pos rfl, Nat.add_zero]

theorem enter_eq_ok_iff : enter i index rs = .ok full ↔ full = places i index rs ∧
    (∀ r ∈ rs, r.metadata.missing = []) ∧ (rs.map Registration.id).Nodup ∧
      ∀ r ∈ rs, index.get? r.id = none := by
  induction rs generalizing i index with
  | nil =>
    refine ⟨fun h => ⟨(Except.ok.inj h).symm, nofun, .nil, nofun⟩, ?_⟩
    rintro ⟨rfl, -⟩
    rfl
  | cons r rs ih =>
    have hstep : (∀ q ∈ rs, (index.insert r.id i).get? q.id = none) ↔
        r.id ∉ rs.map Registration.id ∧ ∀ q ∈ rs, index.get? q.id = none := by
      simp only [OrderedMap.get?_insert, List.mem_map, not_exists, not_and, ← forall_and]
      refine forall₂_congr fun q _ => ?_
      by_cases hq : r.id = q.id <;> simp [hq, eq_comm]
    unfold enter
    split_ifs with hm hr
    · simp [hm]
    · simp [Option.isSome_iff_ne_none.mp hr]
    · rw [ih, hstep]
      have hnone : index.get? r.id = none := by simpa using hr
      simp only [List.forall_mem_cons, List.map_cons, List.nodup_cons, places, not_not.mp hm, hnone,
        true_and, and_assoc, and_left_comm]

end Index

theorem ofList_eq_ok_iff : ofList rs = .ok g ↔ g = .of rs ∧
    (∀ r ∈ rs, r.metadata.missing = []) ∧ (rs.map Registration.id).Nodup := by
  have hempty : ∀ r ∈ rs, (OrderedMap.empty : OrderedMap String Nat).get? r.id = none :=
    fun _ _ => rfl
  unfold ofList
  split
  next e he =>
    refine iff_of_false nofun fun ⟨_, hm, hd⟩ => ?_
    cases he.symm.trans (enter_eq_ok_iff.mpr ⟨rfl, hm, hd, hempty⟩)
  next full hfull =>
    obtain ⟨rfl, hm, hd, -⟩ := enter_eq_ok_iff.mp hfull
    exact ⟨fun h => ⟨(Except.ok.inj h).symm, hm, hd⟩, fun h => congrArg _ h.1.symm⟩

def Distinct (g : Registry) : Prop := (g.registrations.map Registration.id).Nodup

/-- An identifier leads to a registration that has it, if there is one. -/
theorem registration?_cases (g : Registry) (id : String) :
    (id ∉ g.ids ∧ g.registration? id = none) ∨
      ∃ r ∈ g.registrations, r.id = id ∧ g.registration? id = some r := by
  unfold registration?
  rw [g.index_eq]
  by_cases h : id ∈ g.ids
  · obtain ⟨k, r, hk, hr, hid⟩ := exists_get?_places 0 .empty h
    refine .inr ⟨r, List.mem_of_getElem? hr, hid, ?_⟩
    rw [hk, Nat.zero_add]
    exact hr
  · refine .inl ⟨h, ?_⟩
    rw [get?_places_of_notMem h]
    rfl

theorem registration?_eq_some (h : g.registration? id = some r) :
    r ∈ g.registrations ∧ r.id = id := by
  rcases g.registration?_cases id with ⟨-, hnone⟩ | ⟨q, hq, hid, hsome⟩
  · cases hnone.symm.trans h
  · obtain rfl := Option.some.inj (hsome.symm.trans h)
    exact ⟨hq, hid⟩

theorem registration?_eq_none_iff : g.registration? id = none ↔ id ∉ g.ids := by
  rcases g.registration?_cases id with ⟨hid, hnone⟩ | ⟨q, hq, rfl, hsome⟩
  · exact iff_of_true hnone hid
  · rw [hsome]
    exact iff_of_false nofun (not_not_intro (List.mem_map_of_mem hq))

theorem registration?_isSome_iff : (g.registration? id).isSome ↔ id ∈ g.ids := by
  rw [← not_iff_not, ← registration?_eq_none_iff, Bool.not_eq_true, Option.isSome_eq_false_iff,
    Option.isNone_iff_eq_none]

theorem registration?_id (hg : g.Distinct) (h : r ∈ g.registrations) :
    g.registration? r.id = some r := by
  rcases g.registration?_cases r.id with ⟨hid, -⟩ | ⟨q, hq, hid, hsome⟩
  · exact absurd (List.mem_map_of_mem h) hid
  · rw [hsome, List.inj_on_of_nodup_map hg hq h hid]

end Registry

/-! ## Providers -/

namespace Provider

/-- The providers that requests lead to. -/
inductive Reached (g : Registry) : Provider → Prop
  | fresh : Reached g (ofRegistry g)
  | get {p : Provider} (id : String) : Reached g p → Reached g (p.get id).2.1
  | materializeAll {p : Provider} : Reached g p → Reached g p.materializeAll.1

/-- Every instance was built from the registration of its identifier. -/
structure Sound (g : Registry) (p : Provider) : Prop where
  registry : p.registry = g
  built : ∀ i ∈ p.instances, (g.registration? i.key).map Registration.rule = some i.rule

variable {g : Registry} {p : Provider}

/-- What one request does: an instance is shared or built from its registration. -/
theorem get_cases (p : Provider) (id : String) :
    (∃ i ∈ p.instances, i.key = id ∧ p.get id = (some i, p, #[])) ∨
      (p.registry.registration? id = none ∧ p.get id = (none, p, #[])) ∨
      ∃ r, p.registry.registration? id = some r ∧ (∀ i ∈ p.instances, i.key ≠ id) ∧
        p.get id = (some ⟨id, p.constructed, r.rule⟩,
          { p with instances := p.instances ++ [⟨id, p.constructed, r.rule⟩] },
          #[.constructing id]) := by
  unfold get
  cases hi : p.instance? id with
  | some i =>
    exact .inl ⟨i, List.mem_of_find?_eq_some hi, by simpa using List.find?_some hi, rfl⟩
  | none =>
    cases hr : p.registry.registration? id with
    | none => exact .inr (.inl ⟨rfl, rfl⟩)
    | some r =>
      have hnot := List.find?_eq_none.mp hi
      simp only [beq_iff_eq] at hnot
      exact .inr (.inr ⟨r, rfl, hnot, rfl⟩)

theorem getEach_cons (id : String) (ids : List String) (p : Provider) :
    (getEach (id :: ids) p).1 = (p.get id).1.toList ++ (getEach ids (p.get id).2.1).1 ∧
      (getEach (id :: ids) p).2.1 = (getEach ids (p.get id).2.1).2.1 :=
  ⟨rfl, rfl⟩

theorem getEach_cons_notices (id : String) (ids : List String) (p : Provider) :
    (getEach (id :: ids) p).2.2 = (p.get id).2.2 ++ (getEach ids (p.get id).2.1).2.2 :=
  rfl

theorem allRules_eq (p : Provider) : p.allRules.1 =
    (getEach p.materializeAll.1.registry.ids p.materializeAll.1).1.map RuleInstance.rule :=
  rfl

namespace Sound

/-- A request keeps the provider sound and gives the rule of the registration. -/
theorem get (h : p.Sound g) (id : String) : (p.get id).2.1.Sound g ∧
    (p.get id).1.map RuleInstance.rule = (g.registration? id).map Registration.rule := by
  rcases p.get_cases id with ⟨i, hi, rfl, he⟩ | ⟨hr, he⟩ | ⟨r, hr, -, he⟩
  · rw [he]
    exact ⟨h, (h.built i hi).symm⟩
  · rw [h.registry] at hr
    rw [he, hr]
    exact ⟨h, rfl⟩
  · rw [h.registry] at hr
    rw [he, hr]
    refine ⟨⟨h.registry, ?_⟩, rfl⟩
    intro i hi
    rcases List.mem_append.mp hi with hi | hi
    · exact h.built i hi
    · obtain rfl := List.mem_singleton.mp hi
      exact congrArg (Option.map Registration.rule) hr

theorem getEach (h : p.Sound g) (ids : List String) : (Provider.getEach ids p).2.1.Sound g ∧
    (Provider.getEach ids p).1.map RuleInstance.rule =
      ids.filterMap fun id => (g.registration? id).map Registration.rule := by
  induction ids generalizing p with
  | nil => exact ⟨h, rfl⟩
  | cons id ids ih =>
    obtain ⟨hp, hrule⟩ := h.get id
    obtain ⟨hq, hrules⟩ := ih hp
    obtain ⟨he, hp'⟩ := getEach_cons id ids p
    rw [he, hp', List.map_append, hrules, List.filterMap_cons, ← hrule]
    refine ⟨hq, ?_⟩
    cases (p.get id).1 <;> rfl

theorem materializeAll (h : p.Sound g) : p.materializeAll.1.Sound g := by
  unfold Provider.materializeAll
  split
  · exact h
  · obtain ⟨hr, hb⟩ := (h.getEach p.registry.ids).1
    exact ⟨hr, hb⟩

/-- All rules are the registered ones in their order. -/
theorem allRules (h : p.Sound g) (hg : g.Distinct) : p.allRules.2.1.Sound g ∧
    p.allRules.1 = g.registrations.map Registration.rule := by
  obtain ⟨hp, hrules⟩ := h.materializeAll.getEach p.materializeAll.1.registry.ids
  refine ⟨hp, ?_⟩
  rw [allRules_eq, hrules, h.materializeAll.registry, Registry.ids, List.filterMap_map,
    ← List.filterMap_eq_map]
  apply List.filterMap_congr
  intro r hr
  show (g.registration? r.id).map _ = _
  rw [Registry.registration?_id hg hr]
  rfl

end Sound

theorem Reached.sound (h : p.Reached g) : p.Sound g := by
  induction h with
  | fresh => exact ⟨rfl, fun i hi => absurd hi List.not_mem_nil⟩
  | get id _ ih => exact (ih.get id).1
  | materializeAll _ ih => exact ih.materializeAll

theorem Reached.getEach (h : p.Reached g) (ids : List String) :
    (Provider.getEach ids p).2.1.Reached g := by
  induction ids generalizing p with
  | nil => exact h
  | cons id ids ih =>
    rw [(getEach_cons id ids p).2]
    exact ih (.get id h)

theorem Reached.allRules (h : p.Reached g) : p.allRules.2.1.Reached g := h.materializeAll.getEach _

end Provider

/-! ## Runners -/

namespace Runner

/-- The rules that a walk evaluates. -/
def rules (r : Runner) : List Rule := r.provider.materializeAll.1.allRules.1

def warmed (r : Runner) : Runner := { r with provider := r.provider.materializeAll.1.allRules.2.1 }

def renewed (r : Runner) : Runner := { r with provider := .ofRegistry r.provider.registry }

/-- The runner's rules are those of a valid list of registrations, some of which may be built. -/
structure Runs (r : Runner) (rs : List Registration) : Prop where
  valid : Registry.ofList rs = .ok (.of rs)
  reached : r.provider.Reached (.of rs)

namespace Runs

variable {r : Runner} {rs : List Registration}

theorem distinct (h : r.Runs rs) : (Registry.of rs).Distinct :=
  (Registry.ofList_eq_ok_iff.mp h.valid).2.2

theorem rules_eq (h : r.Runs rs) : r.rules = rs.map Registration.rule :=
  (h.reached.materializeAll.sound.allRules h.distinct).2

theorem warmed (h : r.Runs rs) : r.warmed.Runs rs := ⟨h.valid, h.reached.materializeAll.allRules⟩

theorem renewed (h : r.Runs rs) : r.renewed.Runs rs := by
  refine ⟨h.valid, ?_⟩
  show (Provider.ofRegistry r.provider.registry).Reached _
  rw [h.reached.sound.registry]
  exact .fresh

end Runs

end Runner

end UiConformance
