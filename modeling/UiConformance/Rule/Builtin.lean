import UiConformance.Rule.Registry

/-!
# Built-in rules

The rules that every scan registers first, in the order in which reports list them.
-/

namespace UiConformance.Builtin

/-- The element has a Name that is a text with a character that is not blank. -/
def hasReadableName (e : Element) : Bool :=
  match e.name? with
  | some name => Text.hasInk name
  | none => false

def boolProperty (e : Element) (p : PropertyId) (default : Bool) : Bool :=
  ((e.property? p).bind PropertyValue.asBool?).getD default

/-! ## Text of hyperlinks -/

def hyperlinkHasText : RuleMetadata where
  id := "hyperlink-has-text"
  description := "Hyperlink text must be readable by assistive technology"
  howToFix := "Give the hyperlink's Text child a non-empty Name"
  standard := "WCAG 2.4.4"

def hyperlinkWithText : Condition :=
  .controlTypeIs .hyperlink / .controlTypeIs .staticText

/-- A hyperlink that contains text must expose it through a Name. -/
def checkHyperlink (e : Element) : Outcome :=
  let readable := e.children.any fun c => c.controlType == .staticText && hasReadableName c
  .code (if readable then .pass else .error)

/-! ## Names of interactive controls -/

def nameNotEmpty : RuleMetadata where
  id := "name-not-empty"
  description := "Interactive controls must have a non-empty Name"
  howToFix := "Set the control's Name, for example from its visible label"
  standard := "WCAG 4.1.2"
  property := .name

def interactive : List ControlType :=
  [.button, .checkBox, .comboBox, .edit, .hyperlink, .listItem, .menuItem, .radioButton, .tabItem,
   .treeItem]

/-- An interactive control needs a name. One that the keyboard cannot reach is worth a look only. -/
def checkName (e : Element) : Outcome :=
  .code (if hasReadableName e then .pass
    else if boolProperty e .isKeyboardFocusable true then .error else .warning)

/-! ## Rectangles of elements on the screen -/

def boundingRectValid : RuleMetadata where
  id := "bounding-rect-valid"
  description := "On-screen elements must have a non-empty bounding rectangle"
  howToFix := "Report the element's real screen bounds, or mark it offscreen"
  standard := "WCAG 1.3.1"
  property := .boundingRectangle

/-- An element on the screen that reports a rectangle needs one with positive area. -/
def checkRectangle (e : Element) : Outcome :=
  if boolProperty e .isOffscreen false then .code .notApplicable
  else
    match e.property? .boundingRectangle with
    | none => .code .notApplicable
    | some (.rect r) => .code (if r.isEmpty then .error else .pass)
    | some value => .error (.failed
        s!"Element {e.id} has a BoundingRectangle that is not a rectangle: {value.display}")

def registrations : List Registration :=
  [⟨hyperlinkHasText, fun m => .ofMetadata m hyperlinkWithText checkHyperlink⟩,
   ⟨nameNotEmpty, fun m => .ofMetadata m (Condition.anyControlType interactive) checkName⟩,
   ⟨boundingRectValid, fun m => .ofMetadata m none checkRectangle⟩]

end UiConformance.Builtin
