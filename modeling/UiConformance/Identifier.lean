import UiConformance.Text.Blank
import UiConformance.Text.Numeral

/-!
# Identifiers

Control types, control patterns and properties are 32-bit numbers, some of which have a well-known
name. An identifier is written as its name when it has one and as its number otherwise; it is read
from either, whatever the case of the name and the blanks around it.
-/

namespace UiConformance

inductive IdentifierKind
  | controlType
  | pattern
  | property
  deriving DecidableEq, Repr

structure Identifier (kind : IdentifierKind) where
  code : Int32
  deriving DecidableEq, Repr

abbrev ControlType := Identifier .controlType

abbrev PatternId := Identifier .pattern

abbrev PropertyId := Identifier .property

namespace IdentifierKind

def controlTypeNames : List (Int32 × String) :=
  [(50000, "Button"), (50001, "Calendar"), (50002, "CheckBox"), (50003, "ComboBox"),
   (50004, "Edit"), (50005, "Hyperlink"), (50006, "Image"), (50007, "ListItem"), (50008, "List"),
   (50009, "Menu"), (50010, "MenuBar"), (50011, "MenuItem"), (50012, "ProgressBar"),
   (50013, "RadioButton"), (50014, "ScrollBar"), (50015, "Slider"), (50016, "Spinner"),
   (50017, "StatusBar"), (50018, "Tab"), (50019, "TabItem"), (50020, "Text"), (50021, "ToolBar"),
   (50022, "ToolTip"), (50023, "Tree"), (50024, "TreeItem"), (50025, "Custom"), (50026, "Group"),
   (50027, "Thumb"), (50028, "DataGrid"), (50029, "DataItem"), (50030, "Document"),
   (50031, "SplitButton"), (50032, "Window"), (50033, "Pane"), (50034, "Header"),
   (50035, "HeaderItem"), (50036, "Table"), (50037, "TitleBar"), (50038, "Separator"),
   (50039, "SemanticZoom"), (50040, "AppBar")]

def patternNames : List (Int32 × String) :=
  [(10000, "Invoke"), (10001, "Selection"), (10002, "Value"), (10003, "RangeValue"),
   (10004, "Scroll"), (10005, "ExpandCollapse"), (10006, "Grid"), (10007, "GridItem"),
   (10008, "MultipleView"), (10009, "Window"), (10010, "SelectionItem"), (10011, "Dock"),
   (10012, "Table"), (10013, "TableItem"), (10014, "Text"), (10015, "Toggle"),
   (10016, "Transform"), (10017, "ScrollItem"), (10018, "LegacyIAccessible")]

def propertyNames : List (Int32 × String) :=
  [(30000, "RuntimeId"), (30001, "BoundingRectangle"), (30002, "ProcessId"),
   (30003, "ControlType"), (30004, "LocalizedControlType"), (30005, "Name"),
   (30006, "AcceleratorKey"), (30007, "AccessKey"), (30008, "HasKeyboardFocus"),
   (30009, "IsKeyboardFocusable"), (30010, "IsEnabled"), (30011, "AutomationId"),
   (30012, "ClassName"), (30013, "HelpText"), (30016, "IsControlElement"),
   (30017, "IsContentElement"), (30022, "IsOffscreen"), (30024, "FrameworkId")]

/-- The well-known names of a kind. -/
def names : IdentifierKind → List (Int32 × String)
  | .controlType => controlTypeNames
  | .pattern => patternNames
  | .property => propertyNames

/-- What a message calls an identifier of this kind. -/
def noun : IdentifierKind → String
  | .controlType => "control type"
  | .pattern => "pattern"
  | .property => "property"

end IdentifierKind

/-- A text that is neither a number nor a well-known name of the kind. -/
structure UnknownIdentifier where
  kind : IdentifierKind
  text : String
  deriving DecidableEq, Repr

def UnknownIdentifier.message (e : UnknownIdentifier) : String :=
  s!"Unknown {e.kind.noun}: {e.text}"

namespace Identifier

variable {kind : IdentifierKind}

instance : Inhabited (Identifier kind) := ⟨⟨0⟩⟩

instance : LT (Identifier kind) := ⟨fun a b => a.code < b.code⟩

instance : DecidableRel (α := Identifier kind) (· < ·) :=
  fun a b => inferInstanceAs (Decidable (a.code < b.code))

instance : LE (Identifier kind) := ⟨fun a b => a.code ≤ b.code⟩

/-- Identifiers are ordered as their numbers are. -/
instance : Std.IsLinearOrder (Identifier kind) where
  le_refl a := Int32.le_refl a.code
  le_trans _ _ _ := Int32.le_trans
  le_antisymm _ _ h h' := congrArg mk (Int32.le_antisymm h h')
  le_total a b := Int32.le_total a.code b.code

instance : Std.LawfulOrderLT (Identifier kind) where
  lt_iff a b := Std.LawfulOrderLT.lt_iff a.code b.code

def name? (i : Identifier kind) : Option String :=
  (kind.names.find? fun e => decide (e.1 = i.code)).map (·.2)

/-- The name of the identifier, or its number in decimal. -/
def text (i : Identifier kind) : String :=
  i.name?.getD (toString i.code.toInt)

/-- ASCII letters of either case are the same letter; every other character stands for itself. -/
def sameLetters (s t : List Char) : Bool :=
  s.map Char.toLower == t.map Char.toLower

/-- Reads a text without blanks around it. -/
def ofTrimmed? (cs : List Char) : Option (Identifier kind) :=
  match Text.readInt32 cs with
  | some code => some ⟨code⟩
  | none => (kind.names.find? fun e => sameLetters e.2.toList cs).map fun e => ⟨e.1⟩

def ofText? (s : String) : Option (Identifier kind) :=
  ofTrimmed? (Text.trim s.toList)

def ofText (s : String) : Except UnknownIdentifier (Identifier kind) :=
  match ofText? s with
  | some i => .ok i
  | none => .error ⟨kind, s⟩

end Identifier

namespace ControlType

def button : ControlType := ⟨50000⟩
def checkBox : ControlType := ⟨50002⟩
def comboBox : ControlType := ⟨50003⟩
def edit : ControlType := ⟨50004⟩
def hyperlink : ControlType := ⟨50005⟩
def listItem : ControlType := ⟨50007⟩
def menuItem : ControlType := ⟨50011⟩
def radioButton : ControlType := ⟨50013⟩
def tabItem : ControlType := ⟨50019⟩
def staticText : ControlType := ⟨50020⟩
def treeItem : ControlType := ⟨50024⟩

end ControlType

namespace PropertyId

/-- The property of a rule that is not keyed to one. -/
def none : PropertyId := ⟨0⟩

def boundingRectangle : PropertyId := ⟨30001⟩
def controlType : PropertyId := ⟨30003⟩
def name : PropertyId := ⟨30005⟩
def isKeyboardFocusable : PropertyId := ⟨30009⟩
def automationId : PropertyId := ⟨30011⟩
def isOffscreen : PropertyId := ⟨30022⟩

end PropertyId

end UiConformance
