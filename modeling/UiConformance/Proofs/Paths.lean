import Mathlib.Data.List.Forall2
import UiConformance.Proofs.IdentifierText
import UiConformance.Proofs.Numerals
import UiConformance.Proofs.SnapshotPlatform

/-!
# Paths as selectors

The path of a place is the list of child positions on the way to it. A place has one path, and no
other place of the tree has it. A selector that spells the path, with any blanks around it and
any slashes to spare, selects the place; a selector that is no AutomationId selects nothing else
than the place whose path its parts spell, and nothing at all from the first part that is no
position of a child.
-/

namespace UiConformance

open Rose

variable {α : Type}

/-! ## Paths -/

namespace Crumb

/-- The child positions on the way down, one for each ancestor. -/
def positions (cs : List (Crumb α)) : List Nat :=
  (cs.map fun c => c.before.length).reverse

theorem positions_cons (c : Crumb α) (cs : List (Crumb α)) :
    positions (c :: cs) = positions cs ++ [c.before.length] := by
  rw [positions, List.map_cons, List.reverse_cons, positions]

theorem positions_concat (cs : List (Crumb α)) (c : Crumb α) :
    positions (cs ++ [c]) = c.before.length :: positions cs := by
  rw [positions, List.map_append, List.reverse_append]
  rfl

theorem plugAll_concat (cs : List (Crumb α)) (c : Crumb α) (t : Rose α) :
    plugAll (cs ++ [c]) t = c.plug (plugAll cs t) := by
  induction cs generalizing t with
  | nil => rfl
  | cons d cs ih => rw [List.cons_append, plugAll, ih, plugAll]

theorem offset_concat (cs : List (Crumb α)) (c : Crumb α) :
    offset (cs ++ [c]) = 1 + sizeForest c.before + offset cs := by
  induction cs with
  | nil => simp [offset]
  | cons d cs ih =>
    rw [List.cons_append, offset, ih, offset]
    omega

/-- A branch of a node is given by its position. -/
theorem eq_of_plug_eq {c d : Crumb α} {t u : Rose α} (h : c.plug t = d.plug u)
    (hpos : c.before.length = d.before.length) : c = d ∧ t = u := by
  obtain ⟨a, before, after⟩ := c
  obtain ⟨b, before', after'⟩ := d
  obtain ⟨rfl, hlist⟩ := Rose.node.inj h
  obtain ⟨rfl, hrest⟩ := List.append_inj hlist hpos
  obtain ⟨rfl, rfl⟩ := List.cons.inj hrest
  exact ⟨rfl, rfl⟩

/-- The way down is given by the child positions on it. -/
theorem eq_of_positions_eq {cs ds : List (Crumb α)} {t u : Rose α}
    (hw : plugAll cs t = plugAll ds u) (h : positions cs = positions ds) : cs = ds ∧ t = u := by
  induction cs using List.reverseRecOn generalizing ds with
  | nil =>
    obtain rfl : ds = [] := by simpa [positions] using h.symm
    exact ⟨rfl, hw⟩
  | append_singleton cs c ih =>
    rcases List.eq_nil_or_concat ds with rfl | ⟨ds, d, rfl⟩
    · simp [positions] at h
    · rw [List.concat_eq_append] at hw h ⊢
      rw [positions_concat, positions_concat] at h
      rw [plugAll_concat, plugAll_concat] at hw
      obtain ⟨hpos, hrest⟩ := List.cons.inj h
      obtain ⟨rfl, hbelow⟩ := eq_of_plug_eq hw hpos
      obtain ⟨rfl, rfl⟩ := ih hbelow hrest
      exact ⟨rfl, rfl⟩

/-- An earlier branch of a node is among what is before a later one. -/
theorem size_le_of_before {c d : Crumb α} {t u : Rose α} (h : c.plug t = d.plug u)
    (hlt : c.before.length < d.before.length) :
    sizeForest c.before + t.size ≤ sizeForest d.before := by
  obtain ⟨-, hlist⟩ := Rose.node.inj h
  obtain ⟨xs, hd, hrest⟩ | ⟨xs, hc, -⟩ := List.append_eq_append_iff.mp hlist
  · cases xs with
    | nil =>
      rw [hd, List.append_nil] at hlt
      omega
    | cons x xs =>
      obtain ⟨rfl, -⟩ := List.cons.inj hrest
      rw [hd, sizeForest_append, sizeForest]
      omega
  · rw [hc, List.length_append] at hlt
    omega

theorem eq_of_offset_eq {cs ds : List (Crumb α)} {t u : Rose α}
    (hw : plugAll cs t = plugAll ds u) (h : offset cs = offset ds) : cs = ds ∧ t = u := by
  induction cs using List.reverseRecOn generalizing ds with
  | nil =>
    have hlen := length_le_offset ds
    rw [← h] at hlen
    obtain rfl : ds = [] := List.eq_nil_of_length_eq_zero (Nat.le_zero.mp hlen)
    exact ⟨rfl, hw⟩
  | append_singleton cs c ih =>
    rcases List.eq_nil_or_concat ds with rfl | ⟨ds, d, rfl⟩
    · rw [offset_concat, offset] at h
      omega
    · rw [List.concat_eq_append] at hw h ⊢
      rw [offset_concat, offset_concat] at h
      rw [plugAll_concat, plugAll_concat] at hw
      have hc := offset_add_size_le cs t
      have hd := offset_add_size_le ds u
      have ht := t.size_pos
      have hu := u.size_pos
      have hpos : c.before.length = d.before.length := by
        rcases Nat.lt_trichotomy c.before.length d.before.length with hlt | heq | hgt
        · have := size_le_of_before hw hlt
          omega
        · exact heq
        · have := size_le_of_before hw.symm hgt
          omega
      obtain ⟨rfl, hbelow⟩ := eq_of_plug_eq hw hpos
      obtain ⟨rfl, rfl⟩ := ih hbelow (by omega)
      exact ⟨rfl, rfl⟩

end Crumb

namespace Place

def path (p : Place α) : List Nat := Crumb.positions p.above

variable {p q : Place α}

theorem eq_of_above_eq (h : p.above = q.above ∧ p.focus = q.focus) : p = q := by
  obtain ⟨focus, above⟩ := p
  obtain ⟨rfl, rfl⟩ := h
  rfl

theorem eq_of_path_eq (hw : p.whole = q.whole) (h : p.path = q.path) : p = q :=
  eq_of_above_eq (Crumb.eq_of_positions_eq hw h)

theorem eq_of_number_eq (hw : p.whole = q.whole) (h : p.number = q.number) : p = q :=
  eq_of_above_eq (Crumb.eq_of_offset_eq hw h)

theorem getElem?_starts_branch (n : Nat) (before : List (Rose α)) (t : Rose α)
    (after : List (Rose α)) :
    (starts n (before ++ t :: after))[before.length]? = some (n + sizeForest before) := by
  rw [starts_append, List.getElem?_append_right (by rw [length_starts]), length_starts,
    Nat.sub_self, starts]
  rfl

/-- The child at a position is a place, whose path is longer by the position. -/
theorem exists_child_at (p : Place α) {k : Nat} (hk : k < p.focus.children.length) :
    ∃ q : Place α, q.whole = p.whole ∧ q.path = p.path ++ [k] ∧
      (starts (p.number + 1) p.focus.children)[k]? = some q.number := by
  obtain ⟨⟨a, ts⟩, cs⟩ := p
  change k < ts.length at hk
  obtain ⟨before, t, after, rfl, rfl⟩ :
      ∃ before t after, ts = before ++ t :: after ∧ before.length = k :=
    ⟨ts.take k, ts[k], ts.drop (k + 1), by rw [List.getElem_cons_drop, List.take_append_drop],
      List.length_take_of_le (Nat.le_of_lt hk)⟩
  exact ⟨⟨t, ⟨a, before, after⟩ :: cs⟩, rfl, Crumb.positions_cons _ _,
    getElem?_starts_branch _ before t after⟩

end Place

/-! ## Spelling -/

/-- The text spells the positions: decimal numerals with at least one slash between them, and any
number of slashes more, also before and after. -/
inductive Spells : List Nat → List Char → Prop
  | nil : Spells [] []
  | slash {ks : List Nat} {cs : List Char} : Spells ks cs → Spells ks ('/' :: cs)
  | last (k : Nat) : Spells [k] (Nat.toDigits 10 k)
  | position (k : Nat) {ks : List Nat} {cs : List Char} :
      Spells ks cs → Spells (k :: ks) (Nat.toDigits 10 k ++ '/' :: cs)

/-- The positions on the way to the place, joined by single slashes. -/
def Place.pathText (p : Place α) : String := "/".intercalate (p.path.map toString)

theorem spells_intercalate (ks : List Nat) :
    Spells ks (List.intercalate ['/'] (ks.map (Nat.toDigits 10))) := by
  induction ks with
  | nil => exact .nil
  | cons k ks ih =>
    cases ks with
    | nil =>
      rw [List.map_cons, List.map_nil, List.intercalate_singleton]
      exact .last k
    | cons j ks =>
      rw [List.map_cons, List.map_cons, List.intercalate_cons_cons, List.append_assoc,
        ← List.map_cons]
      exact .position k ih

theorem Place.spells_pathText (p : Place α) : Spells p.path p.pathText.toList := by
  have h : p.pathText.toList = List.intercalate ['/'] (p.path.map (Nat.toDigits 10)) := by
    rw [pathText, String.toList_intercalate, List.map_map]
    congr 1
    exact List.map_congr_left fun k _ => Nat.toList_repr
  rw [h]
  exact spells_intercalate p.path

namespace Spells

variable {ks : List Nat} {cs : List Char}

theorem isDigit_or_eq (h : Spells ks cs) : ∀ c ∈ cs, c.isDigit = true ∨ c = '/' := by
  induction h with
  | nil => simp
  | slash _ ih => exact List.forall_mem_cons.mpr ⟨.inr rfl, ih⟩
  | last k => exact fun c hc => .inl (Text.isDigit_of_mem_toDigits hc)
  | position k _ ih =>
    intro c hc
    rcases List.mem_append.mp hc with hc | hc
    · exact .inl (Text.isDigit_of_mem_toDigits hc)
    · exact List.forall_mem_cons.mpr ⟨.inr rfl, ih⟩ c hc

theorem isBlank (h : Spells ks cs) : ∀ c ∈ cs, Text.isBlank c = false := by
  intro c hc
  rcases h.isDigit_or_eq c hc with hd | rfl
  · exact Text.isBlank_of_isAlphanum (by simp [Char.isAlphanum, hd])
  · decide

theorem head?_ne (h : Spells ks cs) : cs.head? ≠ some '#' := by
  intro hc
  rcases h.isDigit_or_eq '#' (List.mem_of_mem_head? hc) with hd | hd <;> exact absurd hd (by decide)

end Spells

namespace SnapshotTree

/-! ## Parts -/

theorem slash_notMem_toDigits (k : Nat) : '/' ∉ Nat.toDigits 10 k := fun h =>
  absurd (Text.isDigit_of_mem_toDigits h) (by decide)

theorem pathParts_slash (cs : List Char) : pathParts ('/' :: cs) = pathParts cs := by
  have h := List.splitOn_append_cons_self_of_not_mem (a := '/') List.not_mem_nil cs
  rw [List.nil_append] at h
  rw [pathParts, h, pathParts]
  rfl

theorem pathParts_toDigits (k : Nat) : pathParts (Nat.toDigits 10 k) = [Nat.toDigits 10 k] := by
  rw [pathParts, List.splitOn_eq_singleton (slash_notMem_toDigits k)]
  simp [Nat.toDigits_ne_nil]

theorem pathParts_position (k : Nat) (cs : List Char) :
    pathParts (Nat.toDigits 10 k ++ '/' :: cs) = Nat.toDigits 10 k :: pathParts cs := by
  rw [pathParts, List.splitOn_append_cons_self_of_not_mem (slash_notMem_toDigits k), pathParts]
  simp [Nat.toDigits_ne_nil]

theorem pathParts_of_spells {ks : List Nat} {cs : List Char} (h : Spells ks cs) :
    pathParts cs = ks.map (Nat.toDigits 10) := by
  induction h with
  | nil => rfl
  | slash _ ih => rw [pathParts_slash, ih]
  | last k => rw [pathParts_toDigits, List.map_singleton]
  | position k _ ih => rw [pathParts_position, ih, List.map_cons]

/-! ## Following -/

open Text (WordNumeral readWord64_eq_some_iff)

theorem follow_cons (p : Place Reading) (part : List Char) (parts : List (List Char)) :
    (ofRose p.whole).follow p.number (part :: parts) =
      (Text.readWord64 part).bind fun k =>
        (starts (p.number + 1) p.focus.children)[k]?.bind fun n =>
          (ofRose p.whole).follow n parts := by
  rw [follow, getElem?_entries]
  rfl

theorem follow_append (s : SnapshotTree) (i : Nat) (xs ys : List (List Char)) :
    s.follow i (xs ++ ys) = (s.follow i xs).bind fun j => s.follow j ys := by
  induction xs generalizing i with
  | nil => rfl
  | cons x xs ih => simp only [List.cons_append, follow, ih, bind, Option.bind_assoc]

/-- The parts spell the way down from the first place to the second. -/
def Leads (p : Place Reading) (parts : List (List Char)) (q : Place Reading) : Prop :=
  q.whole = p.whole ∧ ∃ ks, List.Forall₂ WordNumeral parts ks ∧ q.path = p.path ++ ks

/-- At the place there is no child that the part is the position of. -/
def Strays (q : Place Reading) (part : List Char) : Prop :=
  ∀ k, WordNumeral part k → q.focus.children.length ≤ k

theorem Leads.cons {p q r : Place Reading} {k : Nat} {part : List Char} {parts : List (List Char)}
    (hw : q.whole = p.whole) (hpath : q.path = p.path ++ [k]) (hk : WordNumeral part k)
    (h : Leads q parts r) : Leads p (part :: parts) r := by
  obtain ⟨hw', ks, hks, hr⟩ := h
  refine ⟨hw'.trans hw, k :: ks, .cons hk hks, ?_⟩
  rw [hr, hpath, List.append_assoc]
  rfl

/-- Following parts ends at the place that they lead to, or at the first that strays. -/
theorem follow_cases (parts : List (List Char)) : ∀ p : Place Reading,
    (∃ q, (ofRose p.whole).follow p.number parts = some q.number ∧ Leads p parts q) ∨
      (ofRose p.whole).follow p.number parts = none ∧
        ∃ before part after q, parts = before ++ part :: after ∧ Leads p before q ∧
          Strays q part := by
  induction parts with
  | nil => exact fun p => .inl ⟨p, rfl, rfl, [], .nil, (List.append_nil _).symm⟩
  | cons part parts ih =>
    intro p
    have hstop : (∀ k, WordNumeral part k → p.focus.children.length ≤ k) →
        ∃ before part' after q, part :: parts = before ++ part' :: after ∧ Leads p before q ∧
          Strays q part' :=
      fun h => ⟨[], part, parts, p, rfl, ⟨rfl, [], .nil, (List.append_nil _).symm⟩, h⟩
    rw [follow_cons]
    cases hread : Text.readWord64 part with
    | none =>
      refine .inr ⟨rfl, hstop fun k hk => ?_⟩
      rw [readWord64_eq_some_iff.mpr hk] at hread
      cases hread
    | some k =>
      have hk := readWord64_eq_some_iff.mp hread
      rw [Option.bind_some]
      rcases Nat.lt_or_ge k p.focus.children.length with hlt | hge
      · obtain ⟨q, hw, hpath, hstart⟩ := p.exists_child_at hlt
        rw [hstart, Option.bind_some, ← hw]
        rcases ih q with ⟨r, hfollow, hleads⟩ | ⟨hnone, before, part', after, r, he, hleads, hstray⟩
        · exact .inl ⟨r, hfollow, hleads.cons hw hpath hk⟩
        · exact .inr ⟨hnone, part :: before, part', after, r, by rw [he, List.cons_append],
            hleads.cons hw hpath hk, hstray⟩
      · rw [List.getElem?_eq_none (by rwa [length_starts])]
        refine .inr ⟨rfl, hstop fun j hj => ?_⟩
        rw [readWord64_eq_some_iff.mpr hj] at hread
        obtain rfl := Option.some.inj hread
        exact hge

theorem follow_of_path (p : Place Reading) {parts : List (List Char)}
    (h : List.Forall₂ WordNumeral parts p.path) :
    (ofRose p.whole).follow 0 parts = some p.number := by
  obtain ⟨t, cs⟩ := p
  induction cs generalizing t parts with
  | nil =>
    cases h
    rfl
  | cons c cs ih =>
    change List.Forall₂ WordNumeral parts (Crumb.positions (c :: cs)) at h
    rw [Crumb.positions_cons] at h
    have hup : (ofRose (Crumb.plugAll cs (c.plug t))).follow 0
        (parts.take (Crumb.positions cs).length) = some (Crumb.offset cs) :=
      ih (c.plug t) (List.forall₂_take_append _ _ _ h)
    obtain ⟨part, hlast, hpart⟩ : ∃ part,
        parts.drop (Crumb.positions cs).length = [part] ∧ WordNumeral part c.before.length := by
      have hdrop := List.forall₂_drop_append _ _ _ h
      generalize parts.drop (Crumb.positions cs).length = ps at hdrop
      cases hdrop with
      | cons hpart hnil =>
        cases hnil
        exact ⟨_, rfl, hpart⟩
    let parent : Place Reading := ⟨c.plug t, cs⟩
    have hbranch : (starts (parent.number + 1) parent.focus.children)[c.before.length]? =
        some (Place.number ⟨t, c :: cs⟩) := Place.getElem?_starts_branch _ c.before t c.after
    rw [← List.take_append_drop (Crumb.positions cs).length parts, hlast, follow_append]
    show ((ofRose (Crumb.plugAll cs (c.plug t))).follow 0 _).bind _ = _
    rw [hup]
    show (ofRose parent.whole).follow parent.number [part] = _
    rw [follow_cons, readWord64_eq_some_iff.mpr hpart, Option.bind_some, hbranch]
    rfl

/-! ## Selecting -/

variable {doc : Rose Reading} {selector : String} {h : SnapshotHandle}

theorem leads_root_iff {parts : List (List Char)} {q : Place Reading} :
    Leads ⟨doc, []⟩ parts q ↔ q.whole = doc ∧ List.Forall₂ WordNumeral parts q.path := by
  constructor
  · rintro ⟨hw, ks, hks, hq⟩
    obtain rfl : q.path = ks := hq
    exact ⟨hw, hks⟩
  · rintro ⟨hw, hks⟩
    exact ⟨hw, q.path, hks, rfl⟩

theorem follow_root_cases (doc : Rose Reading) (parts : List (List Char)) :
    (∃ q : Place Reading, (ofRose doc).follow 0 parts = some q.number ∧ q.whole = doc ∧
        List.Forall₂ WordNumeral parts q.path) ∨
      (ofRose doc).follow 0 parts = none ∧ ∃ before part after, parts = before ++ part :: after ∧
        ∃ q : Place Reading, q.whole = doc ∧ List.Forall₂ WordNumeral before q.path ∧
          Strays q part := by
  rcases follow_cases parts ⟨doc, []⟩ with
    ⟨q, hsome, hleads⟩ | ⟨hnone, before, part, after, q, he, hleads, hstray⟩
  · exact .inl ⟨q, hsome, leads_root_iff.mp hleads⟩
  · obtain ⟨hw, hpath⟩ := leads_root_iff.mp hleads
    exact .inr ⟨hnone, before, part, after, he, q, hw, hpath, hstray⟩

theorem select_eq_follow (hs : (Text.trim selector.toList).head? ≠ some '#') :
    (ofRose doc).select selector =
      ((ofRose doc).follow 0 (pathParts (Text.trim selector.toList))).map SnapshotHandle.mk := by
  have hselect : (ofRose doc).select selector =
      ((ofRose doc).follow 0 (pathParts (Text.trim selector.toList))).bind fun i =>
        if i < (ofRose doc).size then some ⟨i⟩ else none := by
    unfold select
    split
    · next id hid =>
      rw [hid] at hs
      exact absurd rfl hs
    · rfl
  rw [hselect]
  rcases follow_root_cases doc (pathParts (Text.trim selector.toList)) with
    ⟨q, hsome, rfl, -⟩ | ⟨hnone, -⟩
  · have hlt : q.number < (ofRose q.whole).size := by
      have h1 := q.number_add_size_le
      have h2 := q.focus.size_pos
      rw [size_ofRose]
      omega
    rw [hsome, Option.bind_some, if_pos hlt, Option.map_some]
  · rw [hnone]
    rfl

/-- A selector that is no AutomationId selects the place whose path its parts are. -/
theorem select_path_eq_some_iff (hs : (Text.trim selector.toList).head? ≠ some '#') :
    (ofRose doc).select selector = some h ↔ ∃ q : Place Reading, q.whole = doc ∧ h = ⟨q.number⟩ ∧
      List.Forall₂ WordNumeral (pathParts (Text.trim selector.toList)) q.path := by
  rw [select_eq_follow hs]
  constructor
  · intro hsome
    obtain ⟨n, hn, rfl⟩ := Option.map_eq_some_iff.mp hsome
    rcases follow_root_cases doc (pathParts (Text.trim selector.toList)) with
      ⟨q, hq, hw, hpath⟩ | ⟨hnone, -⟩
    · obtain rfl := Option.some.inj (hn.symm.trans hq)
      exact ⟨q, hw, rfl, hpath⟩
    · rw [hnone] at hn
      cases hn
  · rintro ⟨q, rfl, rfl, hpath⟩
    rw [follow_of_path q hpath]
    rfl

/-- It selects nothing from the first part on that is no position of a child. -/
theorem select_path_eq_none_iff (hs : (Text.trim selector.toList).head? ≠ some '#') :
    (ofRose doc).select selector = none ↔ ∃ before part after,
      pathParts (Text.trim selector.toList) = before ++ part :: after ∧
        ∃ q : Place Reading, q.whole = doc ∧ List.Forall₂ WordNumeral before q.path ∧
          Strays q part := by
  rw [select_eq_follow hs, Option.map_eq_none_iff]
  constructor
  · intro hnone
    rcases follow_root_cases doc (pathParts (Text.trim selector.toList)) with
      ⟨q, hsome, -⟩ | ⟨-, hstray⟩
    · rw [hsome] at hnone
      cases hnone
    · exact hstray
  · rintro ⟨before, part, after, he, q, rfl, hpath, hstray⟩
    rw [he, follow_append, follow_of_path q hpath, Option.bind_some, follow_cons]
    cases hread : Text.readWord64 part with
    | none => rfl
    | some k =>
      have hge := hstray k (readWord64_eq_some_iff.mp hread)
      rw [Option.bind_some, List.getElem?_eq_none (by rwa [length_starts])]
      rfl

theorem forall₂_toDigits_iff {ks : List Nat} :
    List.Forall₂ WordNumeral (ks.map (Nat.toDigits 10)) ks ↔ ∀ k ∈ ks, k < Text.word64Size := by
  rw [List.forall₂_map_left_iff, List.forall₂_same]
  exact forall₂_congr fun k _ => ⟨WordNumeral.lt, Text.wordNumeral_toDigits⟩

/-- A selector that spells the path of a place selects it, as far as words can say where it is. -/
theorem select_of_spells {p : Place Reading} {core : List Char}
    (hpad : Text.Padded core selector.toList) (hcore : Spells p.path core) :
    (ofRose p.whole).select selector = some ⟨p.number⟩ ↔ ∀ k ∈ p.path, k < Text.word64Size := by
  have htrim : Text.trim selector.toList = core := Text.trim_of_padded hpad hcore.isBlank
  rw [select_path_eq_some_iff (by rw [htrim]; exact hcore.head?_ne), htrim,
    pathParts_of_spells hcore, ← forall₂_toDigits_iff]
  constructor
  · rintro ⟨q, hw, hnumber, hpath⟩
    obtain rfl := Place.eq_of_number_eq hw (SnapshotHandle.mk.inj hnumber).symm
    exact hpath
  · exact fun hpath => ⟨p, rfl, rfl, hpath⟩

/-- Selectors that are no AutomationId say where the nodes of the document are. -/
structure Addressed (doc : Rose Reading) : Prop where
  path_eq_iff : ∀ p q : Place Reading, p.whole = doc → q.whole = doc →
    (p.path = q.path ↔ p.number = q.number)
  /-- The positions in a list that is held in memory are words. -/
  joined : ∀ p : Place Reading, p.whole = doc →
    ((ofRose doc).select p.pathText = some ⟨p.number⟩ ↔ ∀ k ∈ p.path, k < Text.word64Size)
  spelled : ∀ p : Place Reading, p.whole = doc → ∀ (selector : String) (core : List Char),
    Text.Padded core selector.toList → Spells p.path core →
      ((ofRose doc).select selector = some ⟨p.number⟩ ↔ ∀ k ∈ p.path, k < Text.word64Size)
  selected : ∀ selector : String, (Text.trim selector.toList).head? ≠ some '#' →
    ∀ h : SnapshotHandle, (ofRose doc).select selector = some h ↔
      ∃ q : Place Reading, q.whole = doc ∧ h = ⟨q.number⟩ ∧
        List.Forall₂ WordNumeral (pathParts (Text.trim selector.toList)) q.path
  refused : ∀ selector : String, (Text.trim selector.toList).head? ≠ some '#' →
    ((ofRose doc).select selector = none ↔ ∃ before part after,
      pathParts (Text.trim selector.toList) = before ++ part :: after ∧
        ∃ q : Place Reading, q.whole = doc ∧ List.Forall₂ WordNumeral before q.path ∧
          Strays q part)

theorem addressed_ofRose (doc : Rose Reading) : Addressed doc where
  path_eq_iff := by
    rintro p q rfl hq
    constructor
    · intro hpath
      rw [Place.eq_of_path_eq hq.symm hpath]
    · intro hnumber
      rw [Place.eq_of_number_eq hq.symm hnumber]
  joined := by
    rintro p rfl
    exact select_of_spells ⟨[], [], by simp, by simp, by simp⟩ p.spells_pathText
  spelled := by
    rintro p rfl selector core hpad hcore
    exact select_of_spells hpad hcore
  selected selector hs _ := select_path_eq_some_iff hs
  refused selector hs := select_path_eq_none_iff hs

end SnapshotTree

end UiConformance
