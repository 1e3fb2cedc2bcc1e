import UiConformance.Decimal.Binary64

/-!
# The nearest floating-point number

The 64-bit floating-point number nearest to a decimal, a tie going to the even mantissa. The decimal
is taken as a quotient of whole numbers, so that it is rounded once and exactly.
-/

namespace UiConformance.Decimal

namespace Binary64

/-- The exponent at which a positive quotient has a mantissa of 53 bits, if that exponent exists,
and the least one otherwise. -/
def exponentOf (num den : Nat) : Int :=
  let bits : Int := num.log2 - den.log2
  let reaches := den * Nat.pow 2 bits.toNat ≤ num * Nat.pow 2 (-bits).toNat
  max leastExponent (if reaches then bits - 52 else bits - 53)

/-- The bits of the number nearest to a positive quotient; nothing beyond the range. A mantissa that
is rounded up to the next power of two carries into the exponent. -/
def nearestBits? (num den : Nat) : Option Nat :=
  let q := exponentOf num den
  let m := divRoundEven (num * Nat.pow 2 (-q).toNat) (den * Nat.pow 2 q.toNat)
  let bits := (q - leastExponent).toNat * hiddenBit + m
  if bits < 2047 * hiddenBit then some bits else none

example : nearestBits? 1 1 = some 0x3FF0000000000000 := by decide +kernel
example : nearestBits? 1 10 = some 0x3FB999999999999A := by decide +kernel
example : nearestBits? (2 ^ 53 + 1) 1 = some 0x4340000000000000 := by decide +kernel
example : nearestBits? 1 (2 ^ 1074) = some 1 ∧ nearestBits? 1 (2 ^ 1075) = some 0 := by decide +kernel
example : nearestBits? (2 ^ 1024) 1 = none := by decide +kernel

end Binary64

/-- The number nearest to `digits * 10 ^ exponent`; nothing beyond the range. Exponents that leave
no doubt are not expanded. -/
def nearest? (digits : Nat) (exponent : Int) : Option Float :=
  let leading := exponent + (Nat.toDigits 10 digits).length
  if digits = 0 ∨ leading < -400 then some 0
  else if 400 < leading then none
  else
    let bits? := Binary64.nearestBits? (digits * Nat.pow 10 exponent.toNat)
      (Nat.pow 10 (-exponent).toNat)
    bits?.map fun bits => Float.ofBits bits.toUInt64

end UiConformance.Decimal
