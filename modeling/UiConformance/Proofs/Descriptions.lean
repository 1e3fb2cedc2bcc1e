import UiConformance.Snapshot.Description

/-!
# What descriptions say

`d.Describes r` says that `r` is what the names of a described node stand for: of the values given
for a property the last one counts, and the control type is a property as well. A description whose
names can all be read is interpreted node by node, and keeps its shape.
-/

namespace UiConformance

/-! ## Trees of the same shape -/

namespace Rose

variable {α β γ ε : Type}

mutual

/-- The trees have the same shape, and the relation holds between the values in each place. -/
inductive Alike (R : α → β → Prop) : Rose α → Rose β → Prop
  | node {a : α} {b : β} {ts : List (Rose α)} {us : List (Rose β)} :
      R a b → AlikeForest R ts us → Alike R (.node a ts) (.node b us)

inductive AlikeForest (R : α → β → Prop) : List (Rose α) → List (Rose β) → Prop
  | nil : AlikeForest R [] []
  | cons {t : Rose α} {u : Rose β} {ts : List (Rose α)} {us : List (Rose β)} :
      Alike R t u → AlikeForest R ts us → AlikeForest R (t :: ts) (u :: us)

end

variable {R : α → β → Prop} {S : β → γ → Prop} {T : α → γ → Prop}

mutual

theorem Alike.comp (hT : ∀ a b c, R a b → S b c → T a c) : (t : Rose α) →
    ∀ {u : Rose β} {v : Rose γ}, t.Alike R u → u.Alike S v → t.Alike T v
  | .node a _, .node b _, .node c _, .node h hs, .node h' hs' =>
    .node (hT a b c h h') (AlikeForest.comp hT _ hs hs')

theorem AlikeForest.comp (hT : ∀ a b c, R a b → S b c → T a c) : (ts : List (Rose α)) →
    ∀ {us : List (Rose β)} {vs : List (Rose γ)}, AlikeForest R ts us → AlikeForest S us vs →
      AlikeForest T ts vs
  | [], _, _, .nil, .nil => .nil
  | t :: ts, _, _, .cons h hs, .cons h' hs' =>
    .cons (Alike.comp hT t h h') (AlikeForest.comp hT ts hs hs')

end

mutual

/-- A map that fails on no value gives a tree of the same shape, whose values are as it makes
them. -/
theorem exists_traverse {f : α → Except ε β} : (t : Rose α) →
    (∀ a ∈ t.preorder, ∃ b, f a = .ok b ∧ R a b) →
      ∃ u, t.traverse f = .ok u ∧ t.Alike R u
  | node a ts, h => by
    rw [preorder] at h
    obtain ⟨b, hb, hR⟩ := h a List.mem_cons_self
    obtain ⟨us, hus, hlike⟩ := exists_traverseForest ts fun c hc =>
      h c (List.mem_cons_of_mem _ hc)
    refine ⟨node b us, ?_, ?_⟩
    · rw [traverse, hb, hus]
      rfl
    · exact .node hR hlike

theorem exists_traverseForest {f : α → Except ε β} : (ts : List (Rose α)) →
    (∀ a ∈ preorderForest ts, ∃ b, f a = .ok b ∧ R a b) →
      ∃ us, traverseForest f ts = .ok us ∧ AlikeForest R ts us
  | [], _ => by
    refine ⟨[], ?_, ?_⟩
    · rw [traverseForest]
    · exact .nil
  | t :: ts, h => by
    rw [preorderForest] at h
    obtain ⟨u, hu, hlike⟩ := exists_traverse t fun a ha => h a (List.mem_append_left _ ha)
    obtain ⟨us, hus, hlikes⟩ := exists_traverseForest ts fun a ha =>
      h a (List.mem_append_right _ ha)
    refine ⟨u :: us, ?_, ?_⟩
    · rw [traverseForest, hu, hus]
      rfl
    · exact .cons hlike hlikes

end

end Rose

/-! ## Nodes -/

theorem Identifier.ofText_eq_ok_iff {kind : IdentifierKind} {s : String} {i : Identifier kind} :
    ofText s = .ok i ↔ ofText? s = some i := by
  unfold ofText
  cases (ofText? s : Option (Identifier kind)) with
  | none => simp
  | some j => simp

namespace NodeDescription

structure Legible (d : NodeDescription) : Prop where
  controlType : ∃ c : ControlType, Identifier.ofText? d.controlType = some c
  patterns : ∀ name ∈ d.patterns, ∃ p : PatternId, Identifier.ofText? name = some p
  properties : ∀ e ∈ d.properties.entries, ∃ p : PropertyId, Identifier.ofText? e.1 = some p

/-- The value that the last of the property's names comes with. -/
def property? (d : NodeDescription) (p : PropertyId) : Option PropertyValue :=
  (d.properties.entries.reverse.find? fun e => Identifier.ofText? e.1 == some p).map (·.2)

/-- The reading is what the names of the node stand for. -/
structure Describes (d : NodeDescription) (r : Reading) : Prop where
  controlType : Identifier.ofText? d.controlType = some r.controlType
  patterns : d.patterns.map Identifier.ofText? = r.patterns.map some
  property? : ∀ p ≠ .controlType, r.properties.get? p = d.property? p
  /-- The node's own control type, whatever else is said of this property. -/
  ownType : r.properties.get? .controlType = some (.int r.controlType.code.toInt)

theorem exists_patterns {names : List String}
    (h : ∀ name ∈ names, ∃ p : PatternId, Identifier.ofText? name = some p) :
    ∃ ps : List PatternId, names.mapM Identifier.ofText = Except.ok ps ∧
      names.map Identifier.ofText? = ps.map some := by
  induction names with
  | nil => exact ⟨[], rfl, rfl⟩
  | cons name names ih =>
    rw [List.forall_mem_cons] at h
    obtain ⟨p, hp⟩ := h.1
    obtain ⟨ps, hm, hps⟩ := ih h.2
    refine ⟨p :: ps, ?_, ?_⟩
    · rw [List.mapM_cons, Identifier.ofText_eq_ok_iff.mpr hp, hm]
      rfl
    · rw [List.map_cons, List.map_cons, hp, hps]

/-- Later entries win over earlier ones and over what was there before. -/
theorem exists_bag {es : List (String × PropertyValue)}
    (h : ∀ e ∈ es, ∃ p : PropertyId, Identifier.ofText? e.1 = some p) (start : PropertyBag) :
    ∃ bag, bagOf es start = .ok bag ∧ ∀ p : PropertyId, bag.get? p =
      ((es.reverse.find? fun e => Identifier.ofText? e.1 == some p).map (·.2)).or
        (start.get? p) := by
  induction es generalizing start with
  | nil => exact ⟨start, rfl, fun p => rfl⟩
  | cons e es ih =>
    rw [List.forall_mem_cons] at h
    obtain ⟨q, hq⟩ := h.1
    obtain ⟨bag, hb, hget⟩ := ih h.2 (start.insert q e.2)
    refine ⟨bag, ?_, fun p => ?_⟩
    · rw [bagOf, Identifier.ofText_eq_ok_iff.mpr hq]
      exact hb
    · rw [hget, List.reverse_cons, List.find?_append, List.find?_singleton, hq,
        OrderedMap.get?_insert]
      cases es.reverse.find? fun e => Identifier.ofText? e.1 == some p with
      | some f => rfl
      | none => by_cases hp : q = p <;> simp [hp]

/-- A node whose names can all be read is interpreted as what they stand for. -/
theorem exists_interpret {d : NodeDescription} (h : d.Legible) :
    ∃ r, d.interpret = .ok r ∧ d.Describes r := by
  obtain ⟨c, hc⟩ := h.controlType
  obtain ⟨ps, hm, hps⟩ := exists_patterns h.patterns
  obtain ⟨bag, hb, hget⟩ := exists_bag h.properties .empty
  refine ⟨{ controlType := c, patterns := ps,
            properties := bag.insert .controlType (.int c.code.toInt) }, ?_, hc, hps, ?_, ?_⟩
  · rw [interpret, Identifier.ofText_eq_ok_iff.mpr hc, hm, hb]
    rfl
  · intro p hp
    rw [OrderedMap.get?_insert, if_neg (Ne.symm hp), hget, OrderedMap.get?_empty, Option.or_none]
    rfl
  · rw [OrderedMap.get?_insert, if_pos rfl]

end NodeDescription

end UiConformance
