import UiConformance.Decimal.Nearest
import UiConformance.Document.Datum
import UiConformance.Yaml.Node

/-!
# The core schema

What a scalar stands for where no particular type is wanted. A plain scalar may be null, a truth
value, a whole number in one of four bases, or another number; everything else is a text. Quotes
make a text of anything, and a tag of the language settles what is to be read.
-/

namespace UiConformance.Yaml

/-! ## Words -/

def isNullWord (s : String) : Bool := s == "null" || s == "Null" || s == "NULL" || s == "~"

def boolOf? (s : String) : Option Bool :=
  if s == "true" || s == "True" || s == "TRUE" then some true
  else if s == "false" || s == "False" || s == "FALSE" then some false
  else none

/-! ## Whole numbers -/

def takeSign : List Char → Bool × List Char
  | '-' :: cs => (true, cs)
  | '+' :: cs => (false, cs)
  | cs => (false, cs)

def readDigits (base : Nat) (cs : List Char) : Option Nat :=
  if cs.isEmpty then none
  else cs.foldlM (fun n c => ((Text.hexValue? c).filter (· < base)).map (n * base + ·)) 0

/-- Several digits of which the first is a zero do not make a number. -/
def isPadded (cs : List Char) : Bool :=
  cs.head? == some '0' && cs.length != 1 && cs.all Char.isDigit

def readMagnitude : List Char → Option Nat
  | '0' :: 'x' :: cs => readDigits 16 cs
  | '0' :: 'o' :: cs => readDigits 8 cs
  | '0' :: 'b' :: cs => readDigits 2 cs
  | cs => if isPadded cs then none else readDigits 10 cs

def readWhole? (cs : List Char) : Option Whole :=
  let (negative, cs) := takeSign cs
  (readMagnitude cs).map fun n => ⟨negative, n⟩

/-- The number fits into a word of the given width, with a sign only where it is negative. -/
def fits (w : Whole) (width : Nat) : Bool :=
  if w.negative then w.magnitude ≤ Nat.pow 2 (width - 1) else w.magnitude < Nat.pow 2 width

/-! ## Other numbers -/

/-- Digits with an optional point among them, and an optional exponent, without a sign. -/
def readDecimal? (cs : List Char) : Option (Nat × Int) := do
  let (whole, cs) := cs.span Char.isDigit
  let (fraction, cs) := match cs with
    | '.' :: cs => cs.span Char.isDigit
    | cs => ([], cs)
  let exponent : Int ← match cs with
    | [] => some 0
    | 'e' :: cs | 'E' :: cs => (Text.readInt cs)
    | _ => none
  if whole.isEmpty && fraction.isEmpty then none
  else some (Nat.ofDigitChars 10 (whole ++ fraction) 0, exponent - fraction.length)

def isInfinityWord (s : String) : Bool := s == ".inf" || s == ".Inf" || s == ".INF"

def isNaNWord (s : String) : Bool := s == ".nan" || s == ".NaN" || s == ".NAN"

/-- A number with an optional sign, or a word for one that is not finite. A decimal beyond the range
is no number. -/
def floatOf? (s : String) : Option Float :=
  let (negative, cs) := takeSign s.toList
  let signed (x : Float) : Float := if negative then -x else x
  if isNaNWord s then some (0.0 / 0.0)
  else if isInfinityWord (String.ofList cs) then some (signed (1.0 / 0.0))
  else do
    let (digits, exponent) ← readDecimal? cs
    return signed (← Decimal.nearest? digits exponent)

/-! ## Scalars -/

/-- A whole number; one that needs more than 64 bits is refused. -/
def wholeDatum? (w : Whole) : Option Datum :=
  if fits w 64 then some (.whole w) else none

/-- A plain scalar without a tag. Whole numbers of more than 128 bits count as other numbers. -/
def plainDatum? (s : String) : Option Datum :=
  let cs := s.toList
  if s.isEmpty || isNullWord s then some .null
  else
    match boolOf? s, (readWhole? cs).filter (fits · 128) with
    | some b, _ => some (.bool b)
    | none, some w => wholeDatum? w
    | none, none =>
      match if isPadded (takeSign cs).2 then none else floatOf? s with
      | some x => some (.double x)
      | none => some (.text s)

/-- What a scalar stands for. Tags of the document are refused: nothing says what they mean. One that
names nothing leaves a plain scalar as it is. -/
def Scalar.datum? (s : Scalar) : Option Datum :=
  match s.tag with
  | none => if s.plain then plainDatum? s.text else some (.text s.text)
  | some tag =>
    if tag.localName?.isSome then none
    else if tag == .language "bool" then (boolOf? s.text).map .bool
    else if tag == .language "int" then
      ((readWhole? s.text.toList).filter (fits · 128)).bind wholeDatum?
    else if tag == .language "float" then (floatOf? s.text).map .double
    else if tag == .language "null" then if isNullWord s.text then some .null else none
    else if tag.isLocal && s.plain then plainDatum? s.text
    else some (.text s.text)

end UiConformance.Yaml
