import UiConformance.Property.Value

/-!
# Data

The values of a document whose shape is not known beforehand, and the property value that such a
datum stands for. Truth values, whole numbers, other numbers, texts and rectangles are tried in this
order; a rectangle is four numbers, in order or by name.
-/

namespace UiConformance

/-- A whole number as written, where a minus sign may also stand before zero. -/
structure Whole where
  negative : Bool
  magnitude : Nat
  deriving DecidableEq, Repr

def Whole.value (w : Whole) : Int := if w.negative then -w.magnitude else w.magnitude

def Whole.ofInt (i : Int) : Whole := ⟨decide (i < 0), i.natAbs⟩

inductive Datum where
  | null
  | bool (b : Bool)
  | whole (w : Whole)
  | double (x : Float)
  | text (s : String)
  | list (items : List Datum)
  | map (entries : List (Datum × Datum))

namespace Datum

instance : Inhabited Datum := ⟨null⟩

def int (i : Int) : Datum := whole (.ofInt i)

/-- The nearest floating-point number to a whole number of at most 64 bits. -/
def floatOfInt (i : Int) : Float :=
  let magnitude := i.natAbs.toUInt64.toFloat
  if i < 0 then -magnitude else magnitude

def number? : Datum → Option Float
  | whole w => some (floatOfInt w.value)
  | double x => some x
  | _ => none

end Datum

namespace Rect

inductive Side
  | left
  | top
  | right
  | bottom
  deriving DecidableEq, Repr

/-- What an entry of a map says about a rectangle. -/
inductive Entry
  | side (s : Side)
  | other
  | invalid

/-- The sides in their order, by place. -/
def sides : List Side := [.left, .top, .right, .bottom]

/-- A side is named by its word or by its place, which has no minus sign; other words and places are
ignored. -/
def entryOf : Datum → Entry
  | .text "left" => .side .left
  | .text "top" => .side .top
  | .text "right" => .side .right
  | .text "bottom" => .side .bottom
  | .text _ => .other
  | .whole ⟨false, place⟩ => (sides[place]?.map Entry.side).getD .other
  | _ => .invalid

/-- The sides given by the entries of a map; none may be given twice. -/
def sidesOf : List (Datum × Datum) → Option (List (Side × Float))
  | [] => some []
  | (key, value) :: rest => do
    match entryOf key with
    | .invalid => none
    | .other => sidesOf rest
    | .side s =>
      let x ← value.number?
      let sides ← sidesOf rest
      if sides.any fun e => e.1 == s then none else some ((s, x) :: sides)

def ofDatum? : Datum → Option Rect
  | .list [l, t, r, b] => do
    return { left := ← l.number?, top := ← t.number?, right := ← r.number?, bottom := ← b.number? }
  | .map entries => do
    let sides ← sidesOf entries
    let side (s : Side) : Option Float := (sides.find? fun e => e.1 == s).map (·.2)
    return { left := ← side .left, top := ← side .top, right := ← side .right,
             bottom := ← side .bottom }
  | _ => none

end Rect

namespace PropertyValue

/-- Whole numbers of more than 64 bits with sign count as other numbers. -/
def ofDatum? : Datum → Option PropertyValue
  | .bool b => some (.bool b)
  | .whole w =>
    if -(Nat.pow 2 63 : Int) ≤ w.value ∧ w.value < Nat.pow 2 63 then some (.int w.value)
    else some (.double (Datum.floatOfInt w.value))
  | .double x => some (.double x)
  | .text s => some (.text s)
  | d => (Rect.ofDatum? d).map .rect

end PropertyValue

end UiConformance
