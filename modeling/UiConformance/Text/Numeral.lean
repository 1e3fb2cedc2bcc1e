/-!
# Numerals

Whole numbers written with ASCII digits: an optional sign, at least one digit, leading zeros
allowed. The readers for machine words refuse a value outside the word instead of wrapping it.
-/

namespace UiConformance.Text

def int32Max : Nat := 2147483647

def word64Size : Nat := 18446744073709551616

/-- The value of a digit in any base up to sixteen. -/
def hexValue? (c : Char) : Option Nat :=
  if c.isDigit then some (c.toNat - '0'.toNat)
  else if 'a' ≤ c ∧ c ≤ 'f' then some (c.toNat - 'a'.toNat + 10)
  else if 'A' ≤ c ∧ c ≤ 'F' then some (c.toNat - 'A'.toNat + 10)
  else none

/-- The value of a non-empty run of ASCII digits. -/
def readNat (cs : List Char) : Option Nat :=
  if cs ≠ [] ∧ cs.all Char.isDigit then some (Nat.ofDigitChars 10 cs 0) else none

def readInt : List Char → Option Int
  | '-' :: cs => (readNat cs).map fun n => -(n : Int)
  | '+' :: cs => (readNat cs).map fun n => (n : Int)
  | cs => (readNat cs).map fun n => (n : Int)

/-- A signed 32-bit word; other values are refused. -/
def readInt32 (cs : List Char) : Option Int32 := do
  let n ← readInt cs
  if -(int32Max : Int) - 1 ≤ n ∧ n ≤ int32Max then some (Int32.ofInt n) else none

/-- An unsigned 64-bit word: a plus sign is allowed, a minus sign is not. -/
def readWord64 (cs : List Char) : Option Nat := do
  let n ← readNat (match cs with | '+' :: ds => ds | ds => ds)
  if n < word64Size then some n else none

/-! ## Facts -/

theorem readNat_toDigits (n : Nat) : readNat (Nat.toDigits 10 n) = some n := by
  have hd : (Nat.toDigits 10 n).all Char.isDigit = true :=
    List.all_eq_true.2 fun c hc => Nat.isDigit_of_mem_toDigits (by decide) (by decide) hc
  simp [readNat, hd]

end UiConformance.Text
