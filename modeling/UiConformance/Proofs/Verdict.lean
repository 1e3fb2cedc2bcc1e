import UiConformance.Proofs.Constancy
import UiConformance.Proofs.Depiction
import UiConformance.Proofs.Findings
import UiConformance.Scan

/-!
# The verdict on a document

What the built-in rules make of a whole document, from its nodes to the exit code. A node fails
where it is a link none of whose texts has a name, an interactive control without a name that the
keyboard may reach, or something on the screen without an area. A control without a name that the
keyboard cannot reach is in doubt only. The exit code tells the worst that occurs anywhere in the
document.
-/

namespace UiConformance

def Rose.Somewhere {α : Type} (t : Rose α) (P : Rose α → Prop) : Prop :=
  ∃ p : Place α, p.whole = t ∧ P p.focus

theorem Rose.not_somewhere_iff {α : Type} {t : Rose α} {P : Rose α → Prop} :
    ¬ t.Somewhere P ↔ ∀ p : Place α, p.whole = t → ¬ P p.focus := by
  simp [Somewhere]

theorem Condition.holds_anyControlType (ts : List ControlType) (e : Element) :
    (anyControlType ts).holds e = true ↔ e.controlType ∈ ts := by
  have hfold : ∀ (ts : List ControlType) (c : Condition),
      (ts.foldl (fun c t => c ||| controlTypeIs t) c).holds e = true ↔
        c.holds e = true ∨ e.controlType ∈ ts := by
    intro ts
    induction ts with
    | nil => simp
    | cons t ts ih =>
      intro c
      rw [List.foldl_cons, ih]
      show (c.holds e || e.controlType == t) = true ∨ _ ↔ _
      simp [or_assoc]
  cases ts with
  | nil => exact iff_of_false Bool.false_ne_true List.not_mem_nil
  | cons t ts =>
    rw [anyControlType, hfold]
    show (e.controlType == t) = true ∨ _ ↔ _
    simp

theorem Settings.reports_all {s : Settings} (hd : s.rules.disabled = []) (he : s.rules.enabled = [])
    (id : String) : s.reports id = true := by
  simp [reports, hd, he]

namespace Builtin

/-! ## Nodes -/

/-- There is a Name that is a text with a character that is not blank. -/
def Named (r : Reading) : Prop :=
  ∃ s, r.properties.get? .name = some (.text s) ∧ ∃ c ∈ s.toList, Text.isBlank c = false

/-- A hyperlink with texts right below it, none of which is named. -/
def MuteLink (u : Rose Reading) : Prop :=
  u.value.controlType = .hyperlink ∧ (∃ v ∈ u.children, v.value.controlType = .staticText) ∧
    ¬ ∃ v ∈ u.children, v.value.controlType = .staticText ∧ Named v.value

/-- An interactive control that is not named. -/
def Nameless (r : Reading) : Prop := r.controlType ∈ interactive ∧ ¬ Named r

/-- The keyboard is said not to reach it. -/
def OutOfReach (r : Reading) : Prop :=
  r.properties.get? .isKeyboardFocusable = some (.bool false)

/-- Not said to be off the screen, with a rectangle that is none or has no positive area. -/
def Shapeless (r : Reading) : Prop :=
  r.properties.get? .isOffscreen ≠ some (.bool true) ∧
    ∃ v, r.properties.get? .boundingRectangle = some v ∧ ∀ a, v = .rect a → a.isEmpty = true

/-- The node is a failure, or could not be judged. -/
def Failing (u : Rose Reading) : Prop :=
  MuteLink u ∨ (Nameless u.value ∧ ¬ OutOfReach u.value) ∨ Shapeless u.value

/-- The node is worth a look. -/
def Doubtful (u : Rose Reading) : Prop := Nameless u.value ∧ OutOfReach u.value

/-! ## Elements -/

section Element

variable {e : Element} {r : Reading} {u : Rose Reading} {b : ScanStatus}

theorem hasReadableName_iff (h : e.Carries r) : hasReadableName e = true ↔ Named r := by
  have hname : e.name? = (r.properties.get? .name).bind PropertyValue.asText? :=
    congrArg (Option.bind · PropertyValue.asText?) (h.property? .name)
  unfold hasReadableName Named
  rw [hname]
  rcases r.properties.get? .name with - | (_ | _ | _ | s | _) <;>
    simp [PropertyValue.asText?, Text.hasInk]

/-- A truth value is the default unless it is said to be the other one. -/
theorem boolProperty_iff (h : e.Carries r) (p : PropertyId) (d : Bool) :
    boolProperty e p d = d ↔ r.properties.get? p ≠ some (.bool !d) := by
  unfold boolProperty
  rw [h.property? p]
  rcases r.properties.get? p with - | (v | _ | _ | _ | _)
  · simp
  · cases v <;> cases d <;> simp [PropertyValue.asBool?]
  all_goals simp [PropertyValue.asBool?]

theorem hyperlinkWithText_iff (h : e.Depicts u) : hyperlinkWithText.appliesTo e = true ↔
    u.value.controlType = .hyperlink ∧ ∃ v ∈ u.children, v.value.controlType = .staticText := by
  have hchild := h.exists_child_iff (P := fun k => k.controlType = .staticText)
    (Q := fun r => r.controlType = .staticText) fun k r hk => by rw [hk.controlType]
  rw [Condition.appliesTo_eq_holds, ← h.carries.controlType, ← hchild]
  show (e.controlType == .hyperlink &&
    e.children.any fun k => k.controlType == .staticText) = true ↔ _
  simp

theorem readable_iff (h : e.Depicts u) :
    (e.children.any fun k => k.controlType == .staticText && hasReadableName k) = true ↔
      ∃ v ∈ u.children, v.value.controlType = .staticText ∧ Named v.value := by
  rw [← h.exists_child_iff (P := fun k => k.controlType = .staticText ∧ hasReadableName k = true)
    (Q := fun r => r.controlType = .staticText ∧ Named r)
    fun k r hk => by rw [hk.controlType, hasReadableName_iff hk]]
  simp

theorem status_checkHyperlink (e : Element) : (checkHyperlink e).status =
    if (e.children.any fun k => k.controlType == .staticText && hasReadableName k) = true then .pass
    else .fail := by
  simp only [checkHyperlink]
  split <;> rfl

theorem status_checkName (e : Element) : (checkName e).status =
    if hasReadableName e = true then .pass
    else if boolProperty e .isKeyboardFocusable true = true then .fail else .uncertain := by
  unfold checkName
  split
  · rfl
  · split <;> rfl

/-! ## Rules

A bound between passes and failures holds of the findings of a rule where no node is of its kind. -/

section Bound

variable (hpass : ScanStatus.pass ≤ b) (hfail : ¬ ScanStatus.fail ≤ b)

include hpass hfail

theorem hyperlinkHasText_le_iff (h : e.Depicts u) :
    (∀ f, (Rule.ofMetadata hyperlinkHasText hyperlinkWithText checkHyperlink).findingOn? e =
      some f → f.status ≤ b) ↔ ¬ MuteLink u := by
  rw [Rule.findingOn?_le_iff]
  show (hyperlinkWithText.appliesTo e = true → (checkHyperlink e).status ≤ b) ↔ _
  rw [hyperlinkWithText_iff h, status_checkHyperlink, MuteLink, ← readable_iff h]
  split
  · next hr => simp [hr, hpass]
  · next hr => simp [hr, hfail]

theorem nameNotEmpty_le_iff (h : e.Carries r) :
    (∀ f, (Rule.ofMetadata nameNotEmpty (Condition.anyControlType interactive) checkName).findingOn?
      e = some f → f.status ≤ b) ↔ (Nameless r → OutOfReach r ∧ .uncertain ≤ b) := by
  have hfocus := boolProperty_iff h .isKeyboardFocusable true
  rw [Rule.findingOn?_le_iff]
  show ((Condition.anyControlType interactive).appliesTo e = true → (checkName e).status ≤ b) ↔ _
  rw [Condition.appliesTo_eq_holds, Condition.holds_anyControlType, h.controlType,
    status_checkName, Nameless, ← hasReadableName_iff h]
  split
  · next hr => simp [hr, hpass]
  · next hr =>
    split
    · next hk =>
      have hreach : ¬ OutOfReach r := hfocus.mp hk
      simp [hr, hfail, hreach]
    · next hk =>
      have hreach : OutOfReach r := not_not.mp (mt hfocus.mpr hk)
      simp [hr, hreach]

theorem boundingRectValid_le_iff (h : e.Carries r) :
    (∀ f, (Rule.ofMetadata boundingRectValid none checkRectangle).findingOn? e = some f →
      f.status ≤ b) ↔ ¬ Shapeless r := by
  have hoff := boolProperty_iff h .isOffscreen false
  rw [Rule.findingOn?_le_iff]
  show (true = true → (checkRectangle e).status ≤ b) ↔ _
  have hunsupported : ¬ ScanStatus.notSupported ≤ b := fun hb =>
    hfail (ScanStatus.le_trans (by decide) hb)
  unfold checkRectangle Shapeless
  rw [h.property?]
  split
  · next hk =>
    have hoffscreen : r.properties.get? .isOffscreen = some (.bool true) :=
      not_not.mp (mt hoff.mpr (by simp [hk]))
    simp [hoffscreen, Outcome.status, ScanStatus.ofCode, ScanStatus.noResult_le]
  · next hk =>
    have hon : r.properties.get? .isOffscreen ≠ some (.bool true) := hoff.mp (by simpa using hk)
    rcases r.properties.get? .boundingRectangle with - | (v | v | v | v | a)
    · simp [Outcome.status, ScanStatus.ofCode, ScanStatus.noResult_le]
    case some.rect =>
      by_cases ha : a.isEmpty = true
      · simp [hon, ha, Outcome.status, ScanStatus.ofCode, hfail]
      · simp [ha, Outcome.status, ScanStatus.ofCode, hpass]
    -- Any other value is no rectangle, which the rule cannot judge.
    all_goals simp [hon, Outcome.status, hunsupported]

/-- The findings of an element stay within the bound where the node does not fail and, unless doubts
are within it, is not in doubt either. -/
theorem registrations_le_iff (h : e.Depicts u) :
    (∀ q ∈ registrations.map Registration.rule, ∀ f, q.findingOn? e = some f → f.status ≤ b) ↔
      ¬ Failing u ∧ (Doubtful u → .uncertain ≤ b) := by
  rw [registrations, List.map_cons, List.map_cons, List.map_singleton, List.forall_mem_cons,
    List.forall_mem_cons, List.forall_mem_singleton]
  have hrules := and_congr (hyperlinkHasText_le_iff hpass hfail h)
    (and_congr (nameNotEmpty_le_iff hpass hfail h.carries)
      (boundingRectValid_le_iff hpass hfail h.carries))
  refine hrules.trans ?_
  constructor
  · rintro ⟨hlink, hname, hshape⟩
    refine ⟨?_, fun hd => (hname hd.1).2⟩
    rintro (hf | ⟨hn, hr⟩ | hf)
    · exact hlink hf
    · exact hr (hname hn).1
    · exact hshape hf
  · rintro ⟨hf, hd⟩
    refine ⟨fun h => hf (.inl h), fun hn => ?_, fun h => hf (.inr (.inr h))⟩
    have hr : OutOfReach u.value := by_contra fun hr => hf (.inr (.inl ⟨hn, hr⟩))
    exact ⟨hr, hd ⟨hn, hr⟩⟩

end Bound

end Element

/-! ## Documents -/

section Document

variable {doc : Rose Reading} {s : Settings} {scan : ScanTree} {source : String} {b : ScanStatus}

/-- Up to which severity the report of a picture of a document stays. -/
theorem status_ofScan_le_iff (hall : ∀ id, s.reports id = true)
    (hresults : scan.EvaluatedBy (registrations.map Registration.rule))
    (hdoc : scan.tree.Pictures doc) (hpass : ScanStatus.pass ≤ b) (hfail : ¬ ScanStatus.fail ≤ b) :
    (Report.ofScan source scan s).status ≤ b ↔
      ¬ doc.Somewhere Failing ∧ (doc.Somewhere Doubtful → .uncertain ≤ b) := by
  rw [Report.status_ofScan_le_iff hresults]
  simp only [hall, forall_const]
  rw [hdoc.forall_iff fun e u h => registrations_le_iff hpass hfail h, Rose.not_somewhere_iff]
  constructor
  · intro h
    refine ⟨fun p hp => (h p hp).1, ?_⟩
    rintro ⟨p, hp, hd⟩
    exact (h p hp).2 hd
  · rintro ⟨hf, hd⟩ p hp
    exact ⟨hf p hp, fun h => hd ⟨p, hp, h⟩⟩

theorem ofList_registrations : Registry.ofList registrations = .ok (.of registrations) :=
  Registry.ofList_eq_ok_iff.mpr ⟨rfl, by decide +kernel, by decide⟩

/-- Settings with a budget that a counter accepts make a scan and a walker over a platform. -/
theorem exists_walker {H : Type} (reporter : Reporter)
    (hb : Counter.acceptsBound s.scan.maxElements = true) (P : Platform H) :
    ∃ (setup : Scan) (w : Walker H), Scan.ofRegistrations s registrations reporter = .ok setup ∧
      setup.walker P = .ok w ∧ w.platform = P ∧ w.options = s.walkOptions ∧
      Counter.ofBound s.scan.maxElements = .ok w.counter ∧
      w.runner = some { provider := .ofRegistry (.of registrations), reporter } := by
  have hcounter : Counter.ofBound s.scan.maxElements = .ok { bound := s.scan.maxElements.toNat } :=
    if_pos hb
  refine ⟨{ settings := s, runner := { provider := .ofRegistry (.of registrations), reporter } },
    { platform := P, options := s.walkOptions, counter := { bound := s.scan.maxElements.toNat },
      runner := some { provider := .ofRegistry (.of registrations), reporter } },
    ?_, ?_, rfl, rfl, hcounter, rfl⟩
  · unfold Scan.ofRegistrations
    rw [ofList_registrations]
    rfl
  · unfold Scan.walker
    rw [hcounter]
    rfl

end Document

/-- The exit code of a scan of a whole document with the built-in rules, none of which is disabled,
tells the worst that is said of its nodes. -/
theorem exitCode_document (doc : Rose Reading) {s : Settings} (hm : s.scan.mode = .test)
    (hd : s.rules.disabled = []) (he : s.rules.enabled = [])
    (hb : Counter.acceptsBound s.scan.maxElements = true)
    (hle : (doc.size : Int) - 1 ≤ s.scan.maxElements) {order : Schedule} (ho : order.Fair)
    (reporter : Reporter) (source : String) :
    ∃ setup w scan after journal,
      Scan.ofRegistrations s registrations reporter = .ok setup ∧
      setup.walker (SnapshotTree.ofRose doc).platform = .ok w ∧
      w.walkUnder order (SnapshotTree.ofRose doc).root = (.ok scan, after, journal) ∧
      ((Report.ofScan source scan s).exitCode = 2 ↔ doc.Somewhere Failing) ∧
      ((Report.ofScan source scan s).exitCode = 1 ↔
        ¬ doc.Somewhere Failing ∧ doc.Somewhere Doubtful) ∧
      ((Report.ofScan source scan s).exitCode = 0 ↔
        ¬ doc.Somewhere Failing ∧ ¬ doc.Somewhere Doubtful) := by
  obtain ⟨setup, w, hsetup, hw, hplatform, hoptions, hcounter, hrunner⟩ :=
    exists_walker (s := s) reporter hb (SnapshotTree.ofRose doc).platform
  have hmode : w.options.mode = .test := by
    rw [hoptions]
    exact hm
  obtain ⟨scan, after, journal, hwalk, hdoc⟩ := Walker.exists_picture hplatform hcounter hle
    (Walker.runnerNeeded_test hmode hrunner) order
  have hdistinct : Registry.Distinct (.of registrations) :=
    (Registry.ofList_eq_ok_iff.mp ofList_registrations).2.2
  have hresults := Walker.evaluatedBy_walkUnder hdistinct .fresh hmode hrunner ho hwalk
  have hall := Settings.reports_all hd he
  have hworst : (Report.ofScan source scan s).status ≤ .uncertain ↔ ¬ doc.Somewhere Failing :=
    (status_ofScan_le_iff hall hresults hdoc (by decide) (by decide)).trans
      (and_iff_left fun _ => by decide)
  have hclean : (Report.ofScan source scan s).status ≤ .pass ↔
      ¬ doc.Somewhere Failing ∧ ¬ doc.Somewhere Doubtful :=
    (status_ofScan_le_iff hall hresults hdoc (by decide) (by decide)).trans
      (and_congr_right fun _ => imp_congr_right fun _ => iff_false_intro (by decide))
  obtain ⟨h2, h1, h0⟩ := Report.exitCode_iff (Report.ofScan source scan s)
  refine ⟨setup, w, scan, after, journal, hsetup, hw, hwalk, ?_, ?_, h0.trans hclean⟩
  · rw [h2, hworst, not_not]
  · rw [h1, hworst, hclean]
    constructor
    · rintro ⟨hf, hd⟩
      exact ⟨hf, not_not.mp fun h => hd ⟨hf, h⟩⟩
    · rintro ⟨hf, hd⟩
      exact ⟨hf, fun h => h.2 hd⟩

/-- The text of the link in the window has no name. -/
theorem exitCode_document_window :
    ∃ setup w scan after journal,
      Scan.ofRegistrations {} registrations .notices = .ok setup ∧
      setup.walker (SnapshotTree.ofRose Walker.window).platform = .ok w ∧
      w.walkUnder .inOrder (SnapshotTree.ofRose Walker.window).root = (.ok scan, after, journal) ∧
      (Report.ofScan "window" scan {}).exitCode = 2 := by
  obtain ⟨setup, w, scan, after, journal, hsetup, hw, hwalk, hcode, -⟩ :=
    exitCode_document Walker.window (s := {}) rfl rfl rfl rfl (by decide)
      (show Schedule.inOrder.Fair from fun n => ⟨.refl _, .refl _⟩) .notices "window"
  have hmute : MuteLink Walker.link.focus := by
    refine ⟨rfl, ⟨_, List.mem_singleton_self _, rfl⟩, ?_⟩
    rintro ⟨v, hv, -, name, hname, -⟩
    obtain rfl := List.mem_singleton.mp hv
    cases hname
  exact ⟨setup, w, scan, after, journal, hsetup, hw, hwalk,
    hcode.mpr ⟨Walker.link, rfl, .inl hmute⟩⟩

end Builtin

end UiConformance
