import UiConformance.Proofs.SnapshotPlatform

/-!
# Searching for an AutomationId

The search goes into a node's children only where the node itself does not have the AutomationId,
and to the next child only where nothing was found below the one before. So of all the nodes that
have it the search finds the first in document order, which is the one with the smallest handle.
-/

namespace UiConformance

open Rose

/-- The AutomationId that was read, when it is a text. -/
def Reading.automationId? (r : Reading) : Option String :=
  (r.properties.get? .automationId).bind PropertyValue.asText?

theorem Reading.automationId?_eq_some_iff {r : Reading} {id : String} :
    r.automationId? = some id ↔ r.properties.get? .automationId = some (.text id) := by
  rw [automationId?, Option.bind_eq_some_iff]
  constructor
  · rintro ⟨v, hv, hid⟩
    cases v with
    | text s =>
      obtain rfl := Option.some.inj hid
      exact hv
    | _ => cases hid
  · intro h
    exact ⟨.text id, h, rfl⟩

namespace SnapshotTree

variable {doc : Rose Reading} {id selector : String} {h : SnapshotHandle} {r : Reading}

/-! ## Searching -/

/-- The number of the first reading with the AutomationId, counted from `n`. -/
def firstFrom (id : String) (n : Nat) (rs : List Reading) : Option Nat :=
  (rs.findIdx? fun r => r.automationId? == some id).map (· + n)

theorem firstFrom_cons (id : String) (n : Nat) (r : Reading) (rs : List Reading) :
    firstFrom id n (r :: rs) =
      if r.automationId? == some id then some n else firstFrom id (n + 1) rs := by
  rw [firstFrom, List.findIdx?_cons]
  split
  · rw [Option.map_some, Nat.zero_add]
  · rw [Option.map_map, firstFrom]
    congr 1
    funext i
    show i + 1 + n = i + (n + 1)
    omega

theorem firstFrom_append (id : String) (n : Nat) (rs qs : List Reading) :
    firstFrom id n (rs ++ qs) = (firstFrom id n rs).or (firstFrom id (n + rs.length) qs) := by
  induction rs generalizing n with
  | nil => rfl
  | cons r rs ih =>
    rw [List.cons_append, firstFrom_cons, firstFrom_cons, ih, List.length_cons]
    split
    · rfl
    · rw [Nat.add_assoc n 1, Nat.add_comm 1]

theorem findAutomationId_place (p : Place Reading) (id : String) (depth : Nat) :
    (ofRose p.whole).findAutomationId id (depth + 1) p.number =
      if p.focus.value.automationId? == some id then some p.number
      else (starts (p.number + 1) p.focus.children).findSome?
        ((ofRose p.whole).findAutomationId id depth) := by
  rw [findAutomationId, getElem?_entries]
  rfl

/-- Among the last children of a node the search finds the first node in document order. -/
theorem findSome?_starts (id : String) (r : Reading) : ∀ (before ts : List (Rose Reading))
    (cs : List (Crumb Reading)) (depth : Nat), sizeForest ts ≤ depth →
    (starts (Crumb.offset cs + 1 + sizeForest before) ts).findSome?
        ((ofRose (Crumb.plugAll cs (.node r (before ++ ts)))).findAutomationId id depth) =
      firstFrom id (Crumb.offset cs + 1 + sizeForest before) (preorderForest ts)
  | before, [], cs, depth, _ => by
    rw [starts, preorderForest]
    rfl
  | before, .node s us :: ts, cs, 0, hdepth => by
    rw [sizeForest, Rose.size] at hdepth
    omega
  | before, .node s us :: ts, cs, depth + 1, hdepth => by
    rw [sizeForest, Rose.size] at hdepth
    have hplace := findAutomationId_place ⟨.node s us, ⟨r, before, ts⟩ :: cs⟩ id depth
    have hbelow := findSome?_starts id s [] us (⟨r, before, ts⟩ :: cs) depth (by omega)
    have hafter := findSome?_starts id r (before ++ [.node s us]) ts cs (depth + 1) (by omega)
    have hfirst : (ofRose (Crumb.plugAll cs (.node r (before ++ .node s us :: ts)))).findAutomationId
        id (depth + 1) (Crumb.offset cs + 1 + sizeForest before) =
          firstFrom id (Crumb.offset cs + 1 + sizeForest before) (Rose.node s us).preorder := by
      rw [preorder, firstFrom_cons]
      exact hplace.trans (congrArg (ite _ _) hbelow)
    rw [List.append_assoc, sizeForest_append, sizeForest, sizeForest, Nat.add_zero,
      ← Nat.add_assoc] at hafter
    rw [starts, List.findSome?_cons, hfirst, preorderForest, firstFrom_append, length_preorder]
    cases firstFrom id (Crumb.offset cs + 1 + sizeForest before) (Rose.node s us).preorder with
    | some n => rfl
    | none => exact hafter

theorem findAutomationId_root (doc : Rose Reading) (id : String) :
    (ofRose doc).findAutomationId id doc.size 0 = firstFrom id 0 doc.preorder := by
  obtain ⟨r, ts⟩ := doc
  have hplace := findAutomationId_place ⟨.node r ts, []⟩ id (sizeForest ts)
  have hbelow := findSome?_starts id r [] ts [] (sizeForest ts) (Nat.le_refl _)
  rw [Rose.size, Nat.add_comm, preorder, firstFrom_cons]
  exact hplace.trans (congrArg (ite _ _) hbelow)

/-! ## Selecting -/

/-- The handle stands for an element that has the AutomationId. -/
def Bears (s : SnapshotTree) (h : SnapshotHandle) (id : String) : Prop :=
  ∃ r, s.platform.read [] h = .ok r ∧ r.properties.get? .automationId = some (.text id)

theorem bears_iff : (ofRose doc).Bears h id ↔
    ∃ r, doc.preorder[h.number]? = some r ∧ r.automationId? = some id := by
  simp only [Bears, read_eq_ok_iff, Reading.automationId?_eq_some_iff]

theorem firstFrom_zero_eq_some_iff {n : Nat} : firstFrom id 0 doc.preorder = some n ↔
    (ofRose doc).Bears ⟨n⟩ id ∧ ∀ m < n, ¬(ofRose doc).Bears ⟨m⟩ id := by
  simp only [firstFrom, Nat.add_zero, Option.map_id', List.findIdx?_eq_some_iff_getElem, beq_iff_eq,
    bears_iff]
  constructor
  · rintro ⟨hn, hid, hfirst⟩
    refine ⟨⟨_, List.getElem?_eq_getElem hn, hid⟩, ?_⟩
    rintro m hm ⟨r, hr, hrid⟩
    obtain ⟨hlt, rfl⟩ := List.getElem?_eq_some_iff.mp hr
    exact hfirst m hm hrid
  · rintro ⟨⟨r, hr, hid⟩, hfirst⟩
    obtain ⟨hn, rfl⟩ := List.getElem?_eq_some_iff.mp hr
    exact ⟨hn, hid, fun m hm hmid => hfirst m hm ⟨_, List.getElem?_eq_getElem (by omega), hmid⟩⟩

theorem firstFrom_zero_eq_none_iff :
    firstFrom id 0 doc.preorder = none ↔ ∀ h, ¬(ofRose doc).Bears h id := by
  simp only [firstFrom, Option.map_eq_none_iff, List.findIdx?_eq_none_iff, beq_eq_false_iff_ne,
    bears_iff]
  constructor
  · rintro hno h ⟨r, hr, hid⟩
    exact hno r (List.mem_of_getElem? hr) hid
  · intro hno r hr hid
    obtain ⟨n, hn⟩ := List.getElem?_of_mem hr
    exact hno ⟨n⟩ ⟨r, hn, hid⟩

theorem select_eq_firstFrom (hs : Text.trim selector.toList = '#' :: id.toList) :
    (ofRose doc).select selector = (firstFrom id 0 doc.preorder).map SnapshotHandle.mk := by
  unfold select
  rw [hs]
  show (findAutomationId _ (String.ofList id.toList) _ _).map _ = _
  rw [String.ofList_toList, size_ofRose, findAutomationId_root]

/-- The selector stands for the first element in document order that has the AutomationId. -/
structure FindsFirst (doc : Rose Reading) (selector id : String) : Prop where
  selected : ∀ h, (ofRose doc).select selector = some h ↔
    (ofRose doc).Bears h id ∧ ∀ m < h.number, ¬(ofRose doc).Bears ⟨m⟩ id
  refused : (ofRose doc).select selector = none ↔ ∀ h, ¬(ofRose doc).Bears h id
  /-- Handles are numbered in document order. -/
  numbered : ∀ h r, (ofRose doc).platform.read [] h = .ok r ↔ doc.preorder[h.number]? = some r

theorem findsFirst_select (hs : Text.trim selector.toList = '#' :: id.toList) :
    FindsFirst doc selector id where
  selected h := by
    rw [select_eq_firstFrom hs, ← firstFrom_zero_eq_some_iff, Option.map_eq_some_iff]
    constructor
    · rintro ⟨n, hn, rfl⟩
      exact hn
    · intro hn
      exact ⟨h.number, hn, rfl⟩
  refused := by rw [select_eq_firstFrom hs, Option.map_eq_none_iff, firstFrom_zero_eq_none_iff]
  numbered _ _ := read_eq_ok_iff []

def labelled (id : String) : Reading :=
  { properties := OrderedMap.empty.insert .automationId (.text id) }

/-- A dialog in which two elements have the same AutomationId, the first of them further down. -/
def doubled : Rose Reading :=
  .node {} [.node (labelled "name") [], .node {} [.node (labelled "ok") []],
    .node (labelled "ok") []]

theorem findsFirst_select_doubled : Text.trim " #ok\n".toList = '#' :: "ok".toList ∧
    FindsFirst doubled " #ok\n" "ok" ∧ (ofRose doubled).select " #ok\n" = some ⟨3⟩ :=
  ⟨by decide +kernel, findsFirst_select (by decide +kernel), by decide +kernel⟩

end SnapshotTree

end UiConformance
