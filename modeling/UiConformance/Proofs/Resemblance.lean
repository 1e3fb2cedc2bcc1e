import Mathlib.Data.List.Forall2
import UiConformance.Proofs.Verdict

/-!
# Elements that look alike

A rule is shallow when it sees of an element only the control type, the patterns and the properties
of the element and of its children. The built-in rules are. So of elements that resemble each other,
in whatever trees they are, shallow rules say the same: the findings differ in the identifiers of
the elements only, which a message may start with.
-/

namespace UiConformance

namespace Element

/-- What rules see of the element itself. -/
def content (e : Element) : ControlType × List PatternId × Option PropertyBag :=
  (e.node.controlType, e.node.patterns, e.node.properties)

/-- The elements look alike, and so do their children one by one. -/
structure Resembles (e e' : Element) : Prop where
  content : e.content = e'.content
  children : List.Forall₂ (fun k k' => k.content = k'.content) e.children e'.children

variable {e e' : Element}

theorem controlType_eq_of_content (h : e.content = e'.content) : e.controlType = e'.controlType :=
  congrArg Prod.fst h

theorem property?_eq_of_content (h : e.content = e'.content) (p : PropertyId) :
    e.property? p = e'.property? p :=
  congrArg (fun c => c.2.2.bind (·.get? p)) h

theorem name?_eq_of_content (h : e.content = e'.content) : e.name? = e'.name? :=
  congrArg (·.bind PropertyValue.asText?) (property?_eq_of_content h .name)

/-- A test of what is seen of a child finds one among both children or neither. -/
theorem Resembles.any_children (h : e.Resembles e') {test : Element → Bool}
    (ht : ∀ k k', k.content = k'.content → test k = test k') :
    e.children.any test = e'.children.any test := by
  have hchildren := h.children
  generalize e.children = ks at hchildren
  generalize e'.children = ks' at hchildren
  induction hchildren with
  | nil => rfl
  | cons hk _ ih => rw [List.any_cons, List.any_cons, ht _ _ hk, ih]

end Element

/-! ## Outcomes -/

/-- The outcomes for two elements are the same, or they are one text after their identifiers. -/
inductive Outcome.Echoes (i j : Int) : Outcome → Outcome → Prop
  | same (o : Outcome) : Echoes i j o o
  | failed (text : String) :
      Echoes i j (.error (.failed s!"Element {i}{text}")) (.error (.failed s!"Element {j}{text}"))

namespace Outcome.Echoes

variable {i j : Int} {o o' : Outcome}

theorem status_eq (h : Echoes i j o o') : o.status = o'.status := by
  cases h <;> rfl

theorem eq_notApplicable_iff (h : Echoes i j o o') :
    o = .code .notApplicable ↔ o' = .code .notApplicable := by
  cases h with
  | same => rfl
  | failed => exact iff_of_false nofun nofun

theorem eq_of_same (h : Echoes i i o o') : o = o' := by
  cases h <;> rfl

theorem messages_eq_or (h : Echoes i j o o') : o.messages = o'.messages ∨
    ∃ text : String, o.messages = [s!"Element {i}{text}"] ∧
      o'.messages = [s!"Element {j}{text}"] := by
  cases h with
  | same => exact .inl rfl
  | failed text =>
    have hkept : ∀ k : Int, (Outcome.error (.failed s!"Element {k}{text}")).messages =
        [s!"Element {k}{text}"] := fun k => by
      have hne : (s!"Element {k}{text}" != "") = true := by simp [toString]
      exact List.filter_cons_of_pos hne
    exact .inr ⟨text, hkept i, hkept j⟩

end Outcome.Echoes

/-! ## Rules -/

/-- The rule sees an element and its children only. -/
def Rule.Shallow (r : Rule) : Prop := ∀ e e' : Element, e.Resembles e' →
  r.appliesTo e = r.appliesTo e' ∧ (r.evaluate e).Echoes e.id e'.id (r.evaluate e')

namespace Builtin

variable {e e' : Element}

theorem hasReadableName_eq_of_content (h : e.content = e'.content) :
    hasReadableName e = hasReadableName e' := by
  rw [hasReadableName, hasReadableName, Element.name?_eq_of_content h]

theorem boolProperty_eq_of_content (h : e.content = e'.content) (p : PropertyId) (d : Bool) :
    boolProperty e p d = boolProperty e' p d := by
  rw [boolProperty, boolProperty, Element.property?_eq_of_content h]

theorem checkHyperlink_eq (h : e.Resembles e') : checkHyperlink e = checkHyperlink e' := by
  rw [checkHyperlink, checkHyperlink, h.any_children]
  intro k k' hk
  rw [Element.controlType_eq_of_content hk, hasReadableName_eq_of_content hk]

theorem checkName_eq (h : e.content = e'.content) : checkName e = checkName e' := by
  rw [checkName, checkName, hasReadableName_eq_of_content h, boolProperty_eq_of_content h]

/-- The identifier of the element is the only thing that is told of it besides what is seen. -/
theorem checkRectangle_echoes (h : e.content = e'.content) :
    (checkRectangle e).Echoes e.id e'.id (checkRectangle e') := by
  unfold checkRectangle
  rw [boolProperty_eq_of_content h, Element.property?_eq_of_content h]
  split
  · exact .same _
  · split
    · exact .same _
    · exact .same _
    next value _ _ =>
      obtain ⟨text, htext⟩ : ∃ text : String, ∀ i : Int,
          s!"Element {i} has a BoundingRectangle that is not a rectangle: {value.display}" =
            s!"Element {i}{text}" :=
        ⟨s!" has a BoundingRectangle that is not a rectangle: {value.display}",
          fun i => String.append_assoc ..⟩
      rw [htext, htext]
      exact .failed _

theorem hyperlinkWithText_eq (h : e.Resembles e') :
    hyperlinkWithText.appliesTo e = hyperlinkWithText.appliesTo e' := by
  have hchild : e.children.any (fun k => k.controlType == .staticText) =
      e'.children.any fun k => k.controlType == .staticText :=
    h.any_children fun k k' hk => by rw [Element.controlType_eq_of_content hk]
  rw [Condition.appliesTo_eq_holds, Condition.appliesTo_eq_holds]
  show (e.controlType == .hyperlink && e.children.any fun k => k.controlType == .staticText) =
    (e'.controlType == .hyperlink && e'.children.any fun k => k.controlType == .staticText)
  rw [Element.controlType_eq_of_content h.content, hchild]

theorem interactive_eq (h : e.content = e'.content) :
    (Condition.anyControlType interactive).appliesTo e =
      (Condition.anyControlType interactive).appliesTo e' := by
  rw [Bool.eq_iff_iff, Condition.appliesTo_eq_holds, Condition.appliesTo_eq_holds,
    Condition.holds_anyControlType, Condition.holds_anyControlType,
    Element.controlType_eq_of_content h]

theorem shallow_registrations : ∀ r ∈ registrations.map Registration.rule, r.Shallow := by
  rw [registrations, List.map_cons, List.map_cons, List.map_singleton, List.forall_mem_cons,
    List.forall_mem_cons, List.forall_mem_singleton]
  refine ⟨fun e e' h => ⟨hyperlinkWithText_eq h, ?_⟩, fun e e' h => ⟨interactive_eq h.content, ?_⟩,
    fun e e' h => ⟨rfl, checkRectangle_echoes h.content⟩⟩
  · show (checkHyperlink e).Echoes _ _ (checkHyperlink e')
    rw [checkHyperlink_eq h]
    exact .same _
  · show (checkName e).Echoes _ _ (checkName e')
    rw [checkName_eq h.content]
    exact .same _

end Builtin

/-! ## Findings -/

/-- The finding with the identifier of its element counted from another, and without messages. -/
def Finding.relativeTo (i : Int) (f : Finding) : Finding :=
  { f with elementId := f.elementId - i, messages := [] }

/-- The findings are the same but for what they are counted from. Their messages are the same, or
one text after the identifiers of the elements. -/
structure Finding.Matches (i j : Int) (f g : Finding) : Prop where
  relative : f.relativeTo i = g.relativeTo j
  messages : f.messages = g.messages ∨ ∃ text : String,
    f.messages = [s!"Element {f.elementId}{text}"] ∧ g.messages = [s!"Element {g.elementId}{text}"]

section Findings

variable {e e' : Element} {r : Rule} {rules : List Rule} {i j : Int}

theorem Rule.Shallow.matches_findingOn? (hr : r.Shallow) (h : e.Resembles e')
    (hid : e.id - i = e'.id - j) :
    Option.Rel (Finding.Matches i j) (r.findingOn? e) (r.findingOn? e') := by
  obtain ⟨happlies, hechoes⟩ := hr e e' h
  have hcond : ((r.condition.all fun c => c.appliesTo e) = true ∧
      r.evaluate e ≠ .code .notApplicable) ↔
      ((r.condition.all fun c => c.appliesTo e') = true ∧
        r.evaluate e' ≠ .code .notApplicable) := by
    rw [← appliesTo_eq, ← appliesTo_eq, happlies]
    exact and_congr_right' (not_congr hechoes.eq_notApplicable_iff)
  unfold findingOn?
  by_cases hc : (r.condition.all fun c => c.appliesTo e) = true ∧
      r.evaluate e ≠ .code .notApplicable
  · rw [if_pos hc, if_pos (hcond.mp hc)]
    refine .some ⟨?_, hechoes.messages_eq_or⟩
    simp only [Finding.relativeTo, hechoes.status_eq, hid,
      Element.controlType_eq_of_content h.content, Element.name?_eq_of_content h.content]
  · rw [if_neg hc, if_neg (mt hcond.mpr hc)]
    exact .none

/-- What shallow rules say of resembling elements matches one by one. -/
theorem Report.matches_findingsAt (hrules : ∀ r ∈ rules, r.Shallow) (h : e.Resembles e')
    (hid : e.id - i = e'.id - j) (s : Settings) :
    List.Forall₂ (Finding.Matches i j) (findingsAt s rules e) (findingsAt s rules e') := by
  refine List.rel_filterMap (R := fun r r' => r = r' ∧ r.Shallow) ?_
    (List.forall₂_same.mpr fun r hr => ⟨rfl, hrules r (List.mem_of_mem_filter hr)⟩)
  rintro r _ ⟨rfl, hr⟩
  exact hr.matches_findingOn? h hid

/-- Resembling elements with one identifier have the same results. -/
theorem resultsOf_eq_of_resembles (hrules : ∀ r ∈ rules, r.Shallow) (h : e.Resembles e')
    (hid : e.id = e'.id) : (resultsOf rules e).1 = (resultsOf rules e').1 := by
  have hrun : ∀ r ∈ rules, (r.run e).1 = (r.run e').1 := fun r hr => by
    obtain ⟨happlies, hechoes⟩ := hrules r hr e e' h
    rw [hid] at hechoes
    rw [Rule.run_fst, Rule.run_fst, happlies, hechoes.eq_of_same]
    simp only [Rule.result, hid]
  have hruns : (runEach rules e).1 = (runEach rules e').1 := by
    simp only [runEach, List.map_map]
    exact List.map_congr_left hrun
  have hof : ∀ x : RunResult, ScanResult.ofRun x e = ScanResult.ofRun x e' := fun x => by
    simp only [ScanResult.ofRun, hid, Element.controlType_eq_of_content h.content]
  show ScanResults.mk (((runEach rules e).1.filter _).map fun x => .ofRun x e) =
    ScanResults.mk (((runEach rules e').1.filter _).map fun x => .ofRun x e')
  simp only [hruns, hof]

end Findings

end UiConformance
