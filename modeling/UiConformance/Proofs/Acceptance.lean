import UiConformance.Proofs.ByteOrder
import UiConformance.Proofs.Descriptions
import UiConformance.Proofs.FirstFailure
import UiConformance.Proofs.Growth
import UiConformance.Snapshot.Load

/-!
# Accepting a snapshot

The names of a snapshot are those of its nodes in document order: of each node the control type,
the patterns, and the properties in the order of their bytes. A snapshot is accepted when every name
can be read, and refused with the first that cannot. Of the names that stand for one property the
last counts, and the ControlType property is the node's own control type.
-/

namespace UiConformance

/-! ## Ascending entries -/

/-- Among ascending entries the last that passes is the greatest. -/
theorem find?_reverse_eq_some_iff {κ α : Type} [LT κ] [Std.Asymm (α := κ) (· < ·)]
    {q : κ × α → Bool} {es : List (κ × α)} {e : κ × α} (h : es.Pairwise fun e f => e.1 < f.1) :
    es.reverse.find? q = some e ↔ e ∈ es ∧ q e ∧ ∀ f ∈ es, q f → ¬e.1 < f.1 := by
  rw [List.find?_eq_some_iff_append]
  constructor
  · rintro ⟨he, after, before, hsplit, hafter⟩
    rw [List.reverse_eq_iff] at hsplit
    subst hsplit
    rw [List.reverse_append, List.reverse_cons, List.append_assoc, List.singleton_append] at h ⊢
    obtain ⟨-, -, hbefore⟩ := List.pairwise_append.mp h
    refine ⟨by simp, he, fun f hf hq hlt => ?_⟩
    rcases List.mem_append.mp hf with hf | hf
    · exact Std.Asymm.asymm _ _ hlt (hbefore f hf e List.mem_cons_self)
    · rcases List.mem_cons.mp hf with rfl | hf
      · exact Std.Asymm.asymm _ _ hlt hlt
      · have hno := hafter f (List.mem_reverse.mp hf)
        rw [hq] at hno
        cases hno
  · rintro ⟨hmem, he, hgreatest⟩
    obtain ⟨before, after, rfl⟩ := List.append_of_mem hmem
    obtain ⟨-, hafter, -⟩ := List.pairwise_append.mp h
    refine ⟨he, after.reverse, before.reverse, by simp, fun f hf => ?_⟩
    rw [List.mem_reverse] at hf
    have hno : ¬q f = true := fun hq =>
      hgreatest f (List.mem_append_right _ (List.mem_cons_of_mem e hf)) hq
        (List.rel_of_pairwise_cons hafter hf)
    rw [eq_false_of_ne_true hno]
    rfl

/-! ## Names -/

/-- A name in a snapshot and what it is the name of. -/
structure SnapshotName where
  kind : IdentifierKind
  text : String
  deriving DecidableEq, Repr

def SnapshotName.code (name : SnapshotName) : Except UnknownIdentifier Int32 :=
  (Identifier.ofText name.text : Except _ (Identifier name.kind)).map (·.code)

variable {u : UnknownIdentifier}

theorem firstFailure_names {kind : IdentifierKind} {texts : List String} :
    FirstFailure SnapshotName.code (texts.map (SnapshotName.mk kind)) u ↔
      FirstFailure (Identifier.ofText : String → Except _ (Identifier kind)) texts u := by
  rw [List.map_eq_flatMap]
  refine (firstFailure_flatMap fun text e => ?_).symm
  rw [firstFailure_cons, SnapshotName.code]
  cases (Identifier.ofText text : Except _ (Identifier kind)) <;>
    simp [Except.map, not_firstFailure_nil]

theorem exists_code_iff {kind : IdentifierKind} {text : String} :
    (∃ c, (SnapshotName.mk kind text).code = .ok c) ↔
      ∃ i : Identifier kind, Identifier.ofText? text = some i := by
  simp only [← Identifier.ofText_eq_ok_iff, SnapshotName.code]
  cases (Identifier.ofText text : Except _ (Identifier kind)) <;> simp [Except.map]

namespace NodeDescription

variable {d : NodeDescription} {r : Reading}

/-- The names of a node in the order in which they are read. -/
def names (d : NodeDescription) : List SnapshotName :=
  ⟨.controlType, d.controlType⟩ ::
    (d.patterns.map (SnapshotName.mk .pattern) ++ d.properties.keys.map (SnapshotName.mk .property))

theorem legible_iff : d.Legible ↔ ∀ name ∈ d.names, ∃ c, name.code = .ok c := by
  simp only [names, List.forall_mem_cons, List.forall_mem_append, List.forall_mem_map,
    exists_code_iff, OrderedMap.keys]
  exact ⟨fun h => ⟨h.controlType, h.patterns, h.properties⟩, fun h => ⟨h.1, h.2.1, h.2.2⟩⟩

theorem bagOf_eq_error_iff {es : List (String × PropertyValue)} {bag : PropertyBag} :
    bagOf es bag = .error u ↔
      FirstFailure (Identifier.ofText : String → Except _ PropertyId) (es.map (·.1)) u := by
  induction es generalizing bag with
  | nil => exact ⟨nofun, fun h => absurd h not_firstFailure_nil⟩
  | cons e es ih =>
    rw [List.map_cons, firstFailure_cons, bagOf]
    cases (Identifier.ofText e.1 : Except _ PropertyId) with
    | error w => simp [bind, Except.bind]
    | ok p => simpa [bind, Except.bind] using ih

/-- A node is refused with the first of its names that cannot be read. -/
theorem interpret_eq_error_iff :
    d.interpret = .error u ↔ FirstFailure SnapshotName.code d.names u := by
  have hpatterns : (∀ name ∈ d.patterns.map (SnapshotName.mk .pattern), ∃ c, name.code = .ok c) ↔
      ∃ ps : List PatternId, d.patterns.mapM Identifier.ofText = .ok ps := by
    simp only [exists_mapM_iff, List.forall_mem_map, exists_code_iff, Identifier.ofText_eq_ok_iff]
  have hbag : bagOf d.properties.entries .empty = .error u ↔ _ := bagOf_eq_error_iff
  rw [names, firstFailure_cons, firstFailure_append, firstFailure_names, firstFailure_names,
    ← mapM_eq_error_iff, hpatterns, OrderedMap.keys, ← hbag, exists_code_iff, interpret,
    SnapshotName.code]
  simp only [← Identifier.ofText_eq_ok_iff]
  cases (Identifier.ofText d.controlType : Except _ ControlType) with
  | error w => simp [bind, Except.bind, Except.map]
  | ok c =>
    cases (d.patterns.mapM Identifier.ofText : Except _ (List PatternId)) with
    | error w => simp [bind, Except.bind, Except.map]
    | ok ps =>
      cases bagOf d.properties.entries .empty <;>
        simp [bind, Except.bind, Except.map, pure, Except.pure]

theorem describes_of_interpret (h : d.interpret = .ok r) : d.Describes r := by
  have hnames := (exists_ok_iff fun u => interpret_eq_error_iff).mp ⟨r, h⟩
  obtain ⟨s, hs, hd⟩ := exists_interpret (legible_iff.mpr hnames)
  rw [h] at hs
  obtain rfl := Except.ok.inj hs
  exact hd

/-! ## Properties -/

/-- The reading has what the node says of its properties. -/
structure Stores (d : NodeDescription) (r : Reading) : Prop where
  controlType : Identifier.ofText d.controlType = .ok r.controlType
  /-- The node's own control type, whatever else is said of this property. -/
  ownType : r.properties.get? .controlType = some (.int r.controlType.code.toInt)
  /-- What the last of the property's names comes with. -/
  lastName : ∀ p ≠ .controlType, ∀ v, r.properties.get? p = some v ↔
    ∃ name, (name, v) ∈ d.properties.entries ∧ Identifier.ofText name = .ok p ∧
      ∀ other ∈ d.properties.keys, Identifier.ofText other = .ok p →
        Text.bytes other ≤ Text.bytes name

theorem property?_eq_some_iff {p : PropertyId} {v : PropertyValue} : d.property? p = some v ↔
    ∃ name, (name, v) ∈ d.properties.entries ∧ Identifier.ofText name = .ok p ∧
      ∀ other ∈ d.properties.keys, Identifier.ofText other = .ok p →
        Text.bytes other ≤ Text.bytes name := by
  simp only [property?, Option.map_eq_some_iff, find?_reverse_eq_some_iff d.properties.ascending,
    beq_iff_eq, ← Identifier.ofText_eq_ok_iff, OrderedMap.keys, List.forall_mem_map,
    Text.bytes_le_iff, ← String.not_lt]
  constructor
  · rintro ⟨⟨name, w⟩, hlast, rfl⟩
    exact ⟨name, hlast⟩
  · rintro ⟨name, hlast⟩
    exact ⟨(name, v), hlast, rfl⟩

theorem Describes.stores (h : d.Describes r) : d.Stores r where
  controlType := Identifier.ofText_eq_ok_iff.mpr h.controlType
  ownType := h.ownType
  lastName p hp v := by rw [h.property? p hp, property?_eq_some_iff]

end NodeDescription

/-! ## Snapshots -/

namespace SnapshotTree

variable {d : Rose NodeDescription} {s : SnapshotTree}

/-- The names of a snapshot in the order in which they are read. -/
def names (d : Rose NodeDescription) : List SnapshotName := d.preorder.flatMap NodeDescription.names

def outcome (d : Rose NodeDescription) : Except SnapshotError SnapshotTree :=
  (ofDescription d).mapError fun u => .invalid (.unknownIdentifier u)

theorem outcome_eq_ok_iff : outcome d = .ok s ↔
    ∃ t, d.traverse NodeDescription.interpret = .ok t ∧ s = ofRose t := by
  rw [outcome, ofDescription_eq]
  cases d.traverse NodeDescription.interpret <;> simp [Except.map, Except.mapError, eq_comm]

theorem ofDescription_eq_error_iff :
    ofDescription d = .error u ↔ FirstFailure SnapshotName.code (names d) u := by
  rw [names, ← firstFailure_flatMap fun _ _ => NodeDescription.interpret_eq_error_iff,
    ← Rose.traverse_eq_error_iff, ofDescription_eq]
  cases d.traverse NodeDescription.interpret <;> simp [Except.map]

/-- The snapshot is accepted whole or refused with its first bad name. -/
structure Judged (d : Rose NodeDescription) : Prop where
  accepted : (∃ s, outcome d = .ok s) ↔ ∀ name ∈ names d, ∃ c, name.code = .ok c
  refused : ∀ e, outcome d = .error e ↔
    ∃ u, e = .invalid (.unknownIdentifier u) ∧ FirstFailure SnapshotName.code (names d) u
  /-- The names of a node's properties follow one another in the order of their bytes. -/
  byteOrder : ∀ n ∈ d.preorder, (n.properties.keys.map Text.bytes).Pairwise (· < ·)
  /-- Every node of the description is an element, and there are no others. -/
  stored : ∀ s, outcome d = .ok s → s.size = d.size ∧
    ∀ i n, d.preorder[i]? = some n → ∃ r, s.platform.read [] ⟨i⟩ = .ok r ∧ n.Stores r
  /-- A document that gives the description fares as it does. -/
  ofText : ∀ (parse : Parser) (kind : DocumentKind) (content : String),
    parse kind content = .ok d → SnapshotTree.ofText kind content parse = outcome d

theorem judged (d : Rose NodeDescription) : Judged d where
  accepted := by
    rw [← exists_ok_iff fun u => ofDescription_eq_error_iff, outcome]
    cases ofDescription d <;> simp [Except.mapError]
  refused e := by
    simp only [← ofDescription_eq_error_iff, outcome]
    cases ofDescription d <;> simp [Except.mapError, eq_comm]
  byteOrder n _ := by
    rw [OrderedMap.keys, List.map_map, List.pairwise_map]
    exact n.properties.ascending.imp Text.bytes_lt_iff.mpr
  stored s hs := by
    obtain ⟨t, ht, rfl⟩ := outcome_eq_ok_iff.mp hs
    have hplaces := Rose.map_preorder_of_traverse ht
    refine ⟨?_, fun i n hn => ?_⟩
    · have hlength := congrArg List.length hplaces
      rw [List.length_map, List.length_map, Rose.length_preorder, Rose.length_preorder] at hlength
      rw [size_ofRose, hlength]
    · have hread := congrArg (·[i]?) hplaces
      simp only [List.getElem?_map, hn, Option.map_some] at hread
      obtain ⟨r, hr, hok⟩ := Option.map_eq_some_iff.mp hread.symm
      exact ⟨r, (read_eq_ok_iff []).mpr hr, (n.describes_of_interpret hok.symm).stores⟩
  ofText parse kind content hd := by
    rw [SnapshotTree.ofText, hd]
    rfl

end SnapshotTree

end UiConformance
