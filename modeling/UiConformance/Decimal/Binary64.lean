/-!
# Binary floating point, exactly

A 64-bit floating-point number as its sign, its whole mantissa and its power of two, so that the
texts written for it can be computed with whole numbers.
-/

namespace UiConformance.Decimal

inductive Binary64
  | nan
  | infinite (negative : Bool)
  /-- The number `mantissa * 2 ^ exponent`, or its negation. -/
  | finite (negative : Bool) (mantissa : Nat) (exponent : Int)
  deriving DecidableEq, Repr

namespace Binary64

/-- The exponent of the numbers next to zero. -/
def leastExponent : Int := -1074

/-- The mantissa at which the spacing of the numbers doubles. -/
def hiddenBit : Nat := Nat.pow 2 52

def ofBits (bits : Nat) : Binary64 :=
  let negative := decide (Nat.pow 2 63 ≤ bits)
  let biased := bits / hiddenBit % 2048
  let fraction := bits % hiddenBit
  if biased = 2047 then
    if fraction = 0 then .infinite negative else .nan
  else if biased = 0 then .finite negative fraction leastExponent
  else .finite negative (hiddenBit + fraction) ((biased : Int) - 1075)

def ofFloat (x : Float) : Binary64 := ofBits x.toBits.toNat

example : ofBits 0x3FF0000000000000 = .finite false (2 ^ 52) (-52) := by decide
example : ofBits 0x8000000000000001 = .finite true 1 (-1074) := by decide

end Binary64

/-- The quotient rounded to the nearest whole number, a half to the even neighbour. -/
def divRoundEven (num den : Nat) : Nat :=
  let low := num / den
  let twice := 2 * (num % den)
  if den < twice ∨ twice = den ∧ low % 2 = 1 then low + 1 else low

example : divRoundEven 25 10 = 2 ∧ divRoundEven 35 10 = 4 ∧ divRoundEven 26 10 = 3 := by decide

end UiConformance.Decimal
