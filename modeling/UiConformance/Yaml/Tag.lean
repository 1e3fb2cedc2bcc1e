import UiConformance.Text.Numeral

/-!
# YAML tags

A tag says what a node is. It is a string of bytes, since a percent escape may give any byte, and it
ends before its first zero byte. A tag that begins with an exclamation mark belongs to the document;
the others are names of the language.
-/

namespace UiConformance.Yaml

structure Tag where
  bytes : List UInt8
  deriving DecidableEq, Repr

namespace Tag

def ofString (s : String) : Tag := ⟨s.toUTF8.data.toList⟩

def append (t u : Tag) : Tag := ⟨t.bytes ++ u.bytes⟩

/-- The tags of the language begin with this. -/
def languageHandle : Tag := ofString "tag:yaml.org,2002:"

def language (name : String) : Tag := languageHandle.append (ofString name)

/-- A mark alone: the least tag of the document. -/
def mark : Tag := ofString "!"

/-- The name in a tag of the document: what follows the mark, or the mark if nothing does. Bytes
that are no UTF-8 name nothing. -/
def localName? (t : Tag) : Option String :=
  match t.bytes with
  | 0x21 :: [] => some "!"
  | 0x21 :: name => String.fromUTF8? ⟨name.toArray⟩
  | _ => none

def isLocal (t : Tag) : Bool := t.bytes.head? == some 0x21

/-! ## Percent escapes -/

/-- How many bytes a character has whose first one is given. -/
def widthOfLead (byte : Nat) : Option Nat :=
  if byte < 0x80 then some 1
  else if byte / 0x20 = 6 then some 2
  else if byte / 0x10 = 14 then some 3
  else if byte / 0x08 = 30 then some 4
  else none

/-- The bytes of written characters, escapes replaced by the bytes they give. `due` bytes are still
to come of a character whose first byte was escaped; they must be escaped too. -/
def unescape : Nat → List Char → Option (List UInt8)
  | due, '%' :: a :: b :: rest => do
    let byte := (← Text.hexValue? a) * 16 + (← Text.hexValue? b)
    let due ← match due with
      | 0 => (widthOfLead byte).map (· - 1)
      | due + 1 => if byte / 0x40 = 2 then some due else none
    return byte.toUInt8 :: (← unescape due rest)
  | _, '%' :: _ => none
  | 0, c :: rest => (unescape 0 rest).map (c.toNat.toUInt8 :: ·)
  | 0, [] => some []
  | _, _ => none

/-- The tag that ASCII characters stand for. -/
def ofWritten? (cs : List Char) : Option Tag :=
  (unescape 0 cs).map fun bytes => ⟨bytes.takeWhile (· != 0)⟩

example : ofWritten? "a%C3%A9".toList = some (ofString "aé") := by decide +kernel
example : ofWritten? "a%C3b".toList = none ∧ ofWritten? "%80".toList = none := by decide +kernel
example : ofWritten? "a%00b".toList = some (ofString "a") := by decide +kernel

end Tag

end UiConformance.Yaml
