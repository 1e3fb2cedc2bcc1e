import UiConformance.Identifier
import UiConformance.OrderedMap
import UiConformance.Property.Rect

/-!
# Property values

What a platform reports for a property of an element, and the bag of all that it reports for one
element, ordered by property number.
-/

namespace UiConformance

inductive PropertyValue
  | bool (b : Bool)
  | int (i : Int)
  | double (x : Float)
  | text (s : String)
  | rect (r : Rect)
  deriving Repr

namespace PropertyValue

def asText? : PropertyValue → Option String
  | .text s => some s
  | _ => none

def asBool? : PropertyValue → Option Bool
  | .bool b => some b
  | _ => none

def asInt? : PropertyValue → Option Int
  | .int i => some i
  | _ => none

def asRect? : PropertyValue → Option Rect
  | .rect r => some r
  | _ => none

def display : PropertyValue → String
  | .bool b => toString b
  | .int i => toString i
  | .double x => Decimal.plainText x
  | .text s => s
  | .rect r => r.text

end PropertyValue

abbrev PropertyBag := OrderedMap PropertyId PropertyValue

end UiConformance
