import UiConformance.Condition
import UiConformance.Status

/-!
# Rules

A rule is a unit of evaluation: what a report says about it, the condition under which it applies,
and a body that gives a verdict on an element. A body may also fail, or stop with a panic that
carries a text or nothing readable.
-/

namespace UiConformance

/-- What is supplied with a rule's registration. -/
structure RuleMetadata where
  id : String
  description : String
  howToFix : String
  /-- Citation of an accessibility standard. -/
  standard : String
  property : PropertyId := .none
  deriving DecidableEq, Repr

inductive MetadataField
  | id
  | description
  | howToFix
  | standard
  deriving DecidableEq, Repr

def MetadataField.text : MetadataField → String
  | id => "id"
  | description => "description"
  | howToFix => "how_to_fix"
  | standard => "standard"

def MetadataField.all : List MetadataField := [id, description, howToFix, standard]

def RuleMetadata.field (m : RuleMetadata) : MetadataField → String
  | .id => m.id
  | .description => m.description
  | .howToFix => m.howToFix
  | .standard => m.standard

def RuleMetadata.missing (m : RuleMetadata) : List MetadataField :=
  MetadataField.all.filter fun f => !Text.hasInk (m.field f)

/-- What reports know of a rule; `condition` is its text, empty where the rule always applies. -/
structure RuleInfo where
  id : String
  description : String
  howToFix : String
  standard : String
  property : PropertyId
  condition : String
  deriving DecidableEq, Repr

def RuleInfo.ofMetadata (m : RuleMetadata) (condition : Option Condition) : RuleInfo where
  id := m.id
  description := m.description
  howToFix := m.howToFix
  standard := m.standard
  property := m.property
  condition := (condition.map Condition.text).getD ""

inductive RuleError
  | missingProperty (element : Int) (property : PropertyId)
  | failed (text : String)
  deriving DecidableEq, Repr

def RuleError.message : RuleError → String
  | missingProperty element property => s!"Element {element} has no {property.text} property"
  | failed text => text

/-- How the body of a rule ends. -/
inductive Outcome
  | code (c : EvaluationCode)
  | error (e : RuleError)
  | panicked (text : Option String)
  deriving DecidableEq, Repr

structure Rule where
  info : RuleInfo
  condition : Option Condition
  evaluate : Element → Outcome

namespace Rule

def id (r : Rule) : String := r.info.id

def ofMetadata (m : RuleMetadata) (condition : Option Condition) (evaluate : Element → Outcome) :
    Rule :=
  ⟨.ofMetadata m condition, condition, evaluate⟩

/-- A rule without a condition applies to every element. -/
def appliesTo (r : Rule) (e : Element) : Bool :=
  match r.condition with
  | none => true
  | some c => c.appliesTo e

end Rule

end UiConformance
