/-!
# Ordered maps

A finite map is a list of entries whose keys ascend, so each key stands in it once. Inserting a key
that is present replaces its value. The main facts say that an insertion keeps the order, and give
every look-up after it.
-/

namespace UiConformance

structure OrderedMap (κ α : Type) [LT κ] where
  entries : List (κ × α)
  ascending : entries.Pairwise fun e f => e.1 < f.1

namespace OrderedMap

variable {κ α : Type} [LT κ]

def empty : OrderedMap κ α := ⟨[], .nil⟩

instance : Inhabited (OrderedMap κ α) := ⟨empty⟩

/-- The first entry of the key; an ordered list has no second. -/
def get? [DecidableEq κ] (m : OrderedMap κ α) (k : κ) : Option α :=
  (m.entries.find? fun e => decide (e.1 = k)).map (·.2)

/-- Puts the entry before the first greater key. -/
def insertEntry [DecidableEq κ] [DecidableRel (α := κ) (· < ·)] (k : κ) (a : α) :
    List (κ × α) → List (κ × α)
  | [] => [(k, a)]
  | e :: es =>
    if e.1 = k then (k, a) :: es
    else if k < e.1 then (k, a) :: e :: es
    else e :: insertEntry k a es

section Ascending

variable [DecidableEq κ] [DecidableRel (α := κ) (· < ·)] {k : κ} {a : α} {es : List (κ × α)}

theorem eq_or_mem_of_mem_insertEntry {e : κ × α} (h : e ∈ insertEntry k a es) :
    e = (k, a) ∨ e ∈ es := by
  induction es with
  | nil => exact .inl (List.mem_singleton.mp h)
  | cons f es ih =>
    rw [insertEntry] at h
    split at h
    · exact (List.mem_cons.mp h).imp_right (List.mem_cons_of_mem f)
    · split at h
      · exact List.mem_cons.mp h
      · rcases List.mem_cons.mp h with rfl | h
        · exact .inr List.mem_cons_self
        · exact (ih h).imp_right (List.mem_cons_of_mem f)

variable [LE κ] [Std.IsLinearOrder κ] [Std.LawfulOrderLT κ]

theorem ascending_insertEntry (h : es.Pairwise fun e f => e.1 < f.1) :
    (insertEntry k a es).Pairwise fun e f => e.1 < f.1 := by
  induction es with
  | nil => exact List.pairwise_singleton _ _
  | cons e es ih =>
    obtain ⟨hfirst, hes⟩ := List.pairwise_cons.mp h
    rw [insertEntry]
    split
    · next heq => exact List.pairwise_cons.mpr ⟨fun f hf => heq ▸ hfirst f hf, hes⟩
    · next hne =>
      split
      · next hlt =>
        refine List.pairwise_cons.mpr ⟨fun f hf => ?_, h⟩
        rcases List.mem_cons.mp hf with rfl | hf
        · exact hlt
        · exact Std.lt_trans hlt (hfirst f hf)
      · next hge =>
        have hlt : e.1 < k := (Std.lt_trichotomy e.1 k).resolve_right (not_or_intro hne hge)
        refine List.pairwise_cons.mpr ⟨fun f hf => ?_, ih hes⟩
        rcases eq_or_mem_of_mem_insertEntry hf with rfl | hf
        · exact hlt
        · exact hfirst f hf

end Ascending

section Build

variable [DecidableEq κ] [DecidableRel (α := κ) (· < ·)] [LE κ] [Std.IsLinearOrder κ]
  [Std.LawfulOrderLT κ]

def insert (m : OrderedMap κ α) (k : κ) (a : α) : OrderedMap κ α :=
  ⟨insertEntry k a m.entries, ascending_insertEntry m.ascending⟩

/-- Later entries win over earlier ones with the same key. -/
def ofList (es : List (κ × α)) : OrderedMap κ α :=
  es.foldl (fun m e => m.insert e.1 e.2) empty

end Build

def keys (m : OrderedMap κ α) : List κ := m.entries.map (·.1)

def values (m : OrderedMap κ α) : List α := m.entries.map (·.2)

/-! ## Facts -/

@[simp] theorem entries_empty : (empty : OrderedMap κ α).entries = [] := rfl

@[simp] theorem get?_empty [DecidableEq κ] (k : κ) : (empty : OrderedMap κ α).get? k = none := rfl

section Entries

variable [DecidableEq κ] [LE κ] [Std.LawfulOrderLT κ]

/-- Among ascending entries the one that is found is the only one of its key. -/
theorem find?_eq_some_iff_mem {k : κ} {a : α} {es : List (κ × α)}
    (h : es.Pairwise fun e f => e.1 < f.1) :
    (es.find? fun e => decide (e.1 = k)) = some (k, a) ↔ (k, a) ∈ es := by
  refine ⟨List.mem_of_find?_eq_some, fun hmem => ?_⟩
  induction es with
  | nil => cases hmem
  | cons e es ih =>
    obtain ⟨hfirst, hes⟩ := List.pairwise_cons.mp h
    rcases List.mem_cons.mp hmem with rfl | hmem
    · exact List.find?_cons_of_pos (decide_eq_true rfl)
    · have hne : e.1 ≠ k := fun heq => Std.lt_irrefl (heq ▸ hfirst _ hmem)
      rw [List.find?_cons_of_neg (by simpa using hne)]
      exact ih hes hmem

theorem get?_eq_some_iff {m : OrderedMap κ α} {k : κ} {a : α} :
    m.get? k = some a ↔ (k, a) ∈ m.entries := by
  rw [← find?_eq_some_iff_mem m.ascending, get?, Option.map_eq_some_iff]
  constructor
  · rintro ⟨e, he, rfl⟩
    obtain rfl : e.1 = k := by simpa using List.find?_some he
    exact he
  · exact fun he => ⟨(k, a), he, rfl⟩

end Entries

section Insert

variable [DecidableEq κ] [DecidableRel (α := κ) (· < ·)]

theorem find?_insertEntry (k j : κ) (a : α) (es : List (κ × α)) :
    ((insertEntry k a es).find? fun e => decide (e.1 = j)) =
      if k = j then some (k, a) else es.find? fun e => decide (e.1 = j) := by
  induction es with
  | nil => by_cases h : k = j <;> simp [insertEntry, h]
  | cons e es ih =>
    by_cases he : e.1 = k
    · by_cases h : k = j <;> simp_all [insertEntry]
    · by_cases hk : k < e.1
      · by_cases h : k = j <;> simp_all [insertEntry]
      · simp only [insertEntry, if_neg he, if_neg hk, List.find?_cons, ih]
        by_cases hj : e.1 = j
        · have h : k ≠ j := fun h => he (hj.trans h.symm)
          simp [hj, h]
        · simp [hj]

variable [LE κ] [Std.IsLinearOrder κ] [Std.LawfulOrderLT κ]

@[simp] theorem get?_insert (m : OrderedMap κ α) (k j : κ) (a : α) :
    (m.insert k a).get? j = if k = j then some a else m.get? j := by
  simp only [get?, insert, find?_insertEntry]
  split <;> rfl

end Insert

end OrderedMap

end UiConformance
