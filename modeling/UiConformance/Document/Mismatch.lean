import UiConformance.Decimal.Layout
import UiConformance.Text.Quoted

/-!
# Mismatches

How a value of a document misses the shape that was wanted, and how messages say so.
-/

namespace UiConformance

/-- What was found in place of something else. -/
inductive Found
  | null
  | bool (b : Bool)
  | int (i : Int)
  | double (x : Float)
  | text (s : String)
  | list
  | map
  deriving Repr

def Found.describe : Found → String
  | null => "null"
  | bool b => "boolean `" ++ toString b ++ "`"
  | int i => "integer `" ++ toString i ++ "`"
  | double x => "floating point `" ++ Decimal.jsonText x ++ "`"
  | text s => "string " ++ Text.quoted s
  | list => "sequence"
  | map => "map"

inductive Mismatch
  | missingField (name : String)
  | duplicateField (name : String)
  | wrongKind (found : Found) (wanted : String)
  | outOfRange (found : Found) (wanted : String)
  | wrongLength (length : Nat) (wanted : String)
  | unknownVariant (name : String) (variants : List String)
  | noAlternative (name : String)
  deriving Repr

namespace Mismatch

/-- Names in backquotes, the last two joined by "or" where there are only two. -/
def alternatives : List String → String
  | [] => "there are no variants"
  | [a] => "expected `" ++ a ++ "`"
  | [a, b] => "expected `" ++ a ++ "` or `" ++ b ++ "`"
  | names => "expected one of " ++ ", ".intercalate (names.map fun n => "`" ++ n ++ "`")

def message : Mismatch → String
  | missingField name => "missing field `" ++ name ++ "`"
  | duplicateField name => "duplicate field `" ++ name ++ "`"
  | wrongKind found wanted => s!"invalid type: {found.describe}, expected {wanted}"
  | outOfRange found wanted => s!"invalid value: {found.describe}, expected {wanted}"
  | wrongLength length wanted => s!"invalid length {length}, expected {wanted}"
  | unknownVariant name variants => "unknown variant `" ++ name ++ "`, " ++ alternatives variants
  | noAlternative name => s!"data did not match any variant of {name}"

def choose {α : Type} (choices : List (String × α)) (name : String) : Except Mismatch α :=
  match choices.find? fun c => c.1 == name with
  | some c => .ok c.2
  | none => .error (.unknownVariant name (choices.map (·.1)))

end Mismatch

end UiConformance
