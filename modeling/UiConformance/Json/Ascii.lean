import UiConformance.Json.Document

/-!
# JSON in ASCII

A document on one line for channels that carry ASCII alone: every other character is written as its
16-bit units.
-/

namespace UiConformance.Json

/-- The 16-bit units of a character: one, or a pair of surrogates. -/
def unitsOf (c : Char) : List Nat :=
  let n := c.toNat
  if n < 0x10000 then [n] else [0xD800 + (n - 0x10000) / 0x400, 0xDC00 + (n - 0x10000) % 0x400]

def escapedUnit (n : Nat) : List Char :=
  ['\\', 'u'] ++ [n / 4096, n / 256 % 16, n / 16 % 16, n % 16].map hexDigit

def asciiChar (c : Char) : List Char :=
  if ' ' ≤ c ∧ c ≤ '~' then [c] else (unitsOf c).flatMap escapedUnit

/-- The compact form, in which only texts hold characters that need an escape. -/
def Document.ascii (d : Document) : String :=
  String.ofList (d.compact.toList.flatMap asciiChar)

example : asciiChar '😀' = "\\ud83d\\ude00".toList := by cbv

end UiConformance.Json
