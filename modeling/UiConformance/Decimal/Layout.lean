import UiConformance.Decimal.Shortest

/-!
# Texts of floating-point numbers

The decisions that a format takes about the shortest decimal of a number: which exponents are
written positionally, whether a whole number keeps a point, which of two equally near decimals is
taken, and how the values that are no numbers are spelled. Two formats are used: the plain one of messages and the one of JSON documents.
-/

namespace UiConformance.Decimal

structure Layout where
  /-- Exponents of the leading digit that are written positionally; all of them if absent. -/
  positional : Option (Int × Int)
  /-- What follows a whole number. -/
  wholeEnding : String
  tie : Tie
  nan : String
  infinite : Bool → String

/-- Positional notation always, no point after a whole number, ties away from zero. -/
def Layout.plain : Layout :=
  ⟨none, "", .up, "NaN", fun negative => if negative then "-inf" else "inf"⟩

/-- Exponents from -5 to 15 are written positionally and a whole number keeps a point; ties go to
the even digit; what is no number is null. -/
def Layout.json : Layout :=
  ⟨some (-5, 15), ".0", .even, "null", fun _ => "null"⟩

def zeros (n : Nat) : List Char := List.replicate n '0'

/-- The digits with a point before the last `-exponent` of them. -/
def positionalText (wholeEnding : String) (ds : List Char) (exponent : Int) : String :=
  if 0 ≤ exponent then String.ofList (ds ++ zeros exponent.toNat) ++ wholeEnding
  else
    let places := (-exponent).toNat
    let padded := zeros (places + 1 - ds.length) ++ ds
    let whole := padded.length - places
    String.ofList (padded.take whole ++ '.' :: padded.drop whole)

/-- One digit, the others after a point, and a signed exponent. -/
def exponentText (ds : List Char) (leading : Int) : String :=
  let mark := if leading < 0 then "e-" else "e+"
  let fraction := match ds.drop 1 with
    | [] => ""
    | rest => String.ofList ('.' :: rest)
  String.ofList (ds.take 1) ++ fraction ++ mark ++ toString leading.natAbs

def Layout.magnitude (f : Layout) (d : Scientific) : String :=
  let ds := Nat.toDigits 10 d.digits
  let leading := d.exponent + ds.length - 1
  match f.positional with
  | none => positionalText f.wholeEnding ds d.exponent
  | some (least, greatest) =>
    if least ≤ leading ∧ leading ≤ greatest then positionalText f.wholeEnding ds d.exponent
    else exponentText ds leading

def Layout.text (f : Layout) : Binary64 → String
  | .nan => f.nan
  | .infinite negative => f.infinite negative
  | .finite negative m q =>
    (if negative then "-" else "") ++
      f.magnitude (if m = 0 then ⟨0, 0⟩ else shortest f.tie m q)

def plainText (x : Float) : String := Layout.plain.text (.ofFloat x)

def jsonText (x : Float) : String := Layout.json.text (.ofFloat x)

/-- A number that is not negative, rounded to a fixed count of places. -/
def fixedText (places : Nat) (x : Float) : String :=
  match Binary64.ofFloat x with
  | .finite _ m q =>
    let hundredths := divRoundEven (m * Nat.pow 2 q.toNat * Nat.pow 10 places) (Nat.pow 2 (-q).toNat)
    positionalText "" (Nat.toDigits 10 hundredths) (-(places : Int))
  | other => Layout.plain.text other

example : Layout.json.text (.finite false 1 0) = "1.0" := by decide +kernel
example : Layout.json.magnitude ⟨12, 20⟩ = "1.2e+21" := by cbv
example : Layout.json.magnitude ⟨1, -5⟩ = "0.00001" := by cbv
example : Layout.plain.magnitude ⟨15, -1⟩ = "1.5" := by cbv

end UiConformance.Decimal
