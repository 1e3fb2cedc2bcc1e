import UiConformance.Decimal.Binary64

/-!
# The shortest decimal

Of all decimals that round to a given floating-point number, the ones with the fewest digits, and of
those the nearest; where two are equally near, the format that wants the text decides. For one digit, two digits and so on, the two neighbours of the number on that
decimal grid are tested against the interval of the reals that round to it; if any point of a grid
lies in the interval, then so does one of the two.
-/

namespace UiConformance.Decimal

/-- The decimal `digits * 10 ^ exponent`. -/
structure Scientific where
  digits : Nat
  exponent : Int
  deriving DecidableEq, Repr

/-- A positive rational number in quarters of the last place of a mantissa: `4 * m`, the ends of the
interval that rounds to `m`, and the factor all three are to be multiplied by. -/
structure Interval where
  low : Nat
  value : Nat
  high : Nat
  /-- The ends belong to the interval. -/
  closed : Bool
  num : Nat
  den : Nat

/-- The interval of the number `m * 2 ^ q`. Below a power of two the spacing is half as wide; ties
go to the even mantissa, so the ends belong to an even one. -/
def Interval.around (m : Nat) (q : Int) : Interval where
  low := 4 * m - (if m = Binary64.hiddenBit ∧ Binary64.leastExponent < q then 1 else 2)
  value := 4 * m
  high := 4 * m + 2
  closed := m % 2 = 0
  num := Nat.pow 2 (q - 2).toNat
  den := Nat.pow 2 (2 - q).toNat

/-- The exponent of the leading decimal digit of a positive quotient. -/
def leadingExponent (num den : Nat) : Int :=
  if den ≤ num then ((Nat.toDigits 10 (num / den)).length : Int) - 1
  else -((Nat.toDigits 10 ((den + num - 1) / num - 1)).length : Int)

/-- Which of two neighbours on a grid a number halfway between them goes to. -/
inductive Tie
  | up
  | even
  deriving DecidableEq, Repr

/-- The number lies nearer to the point `below` of a grid than to the next one, given how far it lies
beyond that point, or goes to it as a tie. -/
def Tie.staysBelow (t : Tie) (below beyond unit : Nat) : Bool :=
  2 * beyond < unit || t == .even && 2 * beyond == unit && below % 2 == 0

/-- The nearest point, among the two neighbours on the grid of multiples of `10 ^ e`, that lies in
the interval. -/
def Interval.nearestOn (i : Interval) (t : Tie) (e : Int) : Option Nat :=
  let up := Nat.pow 10 e.toNat
  let down := Nat.pow 10 (-e).toNat
  let value := i.value * i.num * down
  let unit := up * i.den
  let low := i.low * i.num * down
  let high := i.high * i.num * down
  let inside (c : Nat) : Bool :=
    if i.closed then low ≤ c * unit && c * unit ≤ high else low < c * unit && c * unit < high
  let below := value / unit
  let above := below + 1
  match inside below, inside above with
  | true, true => some (if t.staysBelow below (value % unit) unit then below else above)
  | true, false => some below
  | false, true => some above
  | false, false => none

/-- Tries grids of growing fineness, at most `steps` of them. -/
def Interval.search (i : Interval) (t : Tie) : Nat → Int → Scientific
  | 0, e =>
    ⟨divRoundEven (i.value * i.num * Nat.pow 10 (-e).toNat) (i.den * Nat.pow 10 e.toNat), e⟩
  | steps + 1, e =>
    match i.nearestOn t e with
    | some c => ⟨c, e⟩
    | none => i.search t steps (e - 1)

def Scientific.dropZeros : Nat → Scientific → Scientific
  | 0, d => d
  | steps + 1, d =>
    if d.digits ≠ 0 ∧ d.digits % 10 = 0 then dropZeros steps ⟨d.digits / 10, d.exponent + 1⟩ else d

/-- The shortest decimal that rounds to the positive number `m * 2 ^ q`; seventeen digits always
suffice. -/
def shortest (t : Tie) (m : Nat) (q : Int) : Scientific :=
  let i := Interval.around m q
  (i.search t 17 (leadingExponent (i.value * i.num) i.den)).dropZeros 20

example : shortest .up 1 (-1074) = ⟨5, -324⟩ := by decide +kernel
example : shortest .up 0x1999999999999A (-56) = ⟨1, -1⟩ := by decide +kernel
example : shortest .even 0x1FFFFFFFFFFFFF 971 = ⟨17976931348623157, 292⟩ := by decide +kernel
example : shortest .up 4503599627370497 (-2) = ⟨11258999068426243, -1⟩ := by decide +kernel
example : shortest .even 4503599627370497 (-2) = ⟨11258999068426242, -1⟩ := by decide +kernel

end UiConformance.Decimal
