/-!
# Places in a YAML text

A cursor stands before the rest of a text and knows how much of it lies behind: in bytes of its
UTF-8 form, and in lines and columns. Line ends come in several spellings and count as one break
each.
-/

namespace UiConformance.Yaml

structure Cursor where
  rest : List Char
  /-- The bytes behind. -/
  index : Nat := 0
  line : Nat := 0
  column : Nat := 0

def isPrintable (c : Char) : Bool :=
  let n := c.toNat
  n == 0x09 || n == 0x0A || n == 0x0D || 0x20 ≤ n && n ≤ 0x7E || n == 0x85 ||
    0xA0 ≤ n && n ≤ 0xFFFD || 0x10000 ≤ n

def isBlank (c : Char) : Bool := c == ' ' || c == '\t'

def isBreak (c : Char) : Bool :=
  c == '\n' || c == '\r' || c == '\x85' || c == '\u2028' || c == '\u2029'

/-- The characters of anchors and of the words in directives and tags. -/
def isWordChar (c : Char) : Bool := c.isAlphanum || c == '_' || c == '-'

namespace Cursor

/-- The character `n` places on. -/
def peek (k : Cursor) (n : Nat) : Option Char := k.rest[n]?

def isAt (k : Cursor) (n : Nat) (c : Char) : Bool := k.peek n == some c

/-- The text has ended, or a break comes, `n` places on. -/
def breakOrEnd (k : Cursor) (n : Nat) : Bool := (k.peek n).all isBreak

/-- The text has ended, or a blank or a break comes, `n` places on. -/
def gapOrEnd (k : Cursor) (n : Nat) : Bool := (k.peek n).all fun c => isBlank c || isBreak c

def atEnd (k : Cursor) : Bool := k.rest.isEmpty

/-- The bytes that a text takes up. -/
def width (cs : List Char) : Nat := cs.foldl (fun n c => n + c.utf8Size) 0

def skip (k : Cursor) : Cursor :=
  { k with rest := k.rest.tail, index := k.index + width (k.rest.take 1), column := k.column + 1 }

def skipMany : Nat → Cursor → Cursor
  | 0, k => k
  | n + 1, k => skipMany n k.skip

/-- Passes over a break and gives it as it counts in a text: a line feed, except for the two
separators of Unicode, which stay what they are. -/
def takeBreak (k : Cursor) : List Char × Cursor :=
  match k.rest with
  | '\r' :: '\n' :: rest => (['\n'], ⟨rest, k.index + 2, k.line + 1, 0⟩)
  | c :: rest =>
    if isBreak c then
      ([if c == '\u2028' || c == '\u2029' then c else '\n'],
        ⟨rest, k.index + c.utf8Size, k.line + 1, 0⟩)
    else ([], k)
  | [] => ([], k)

/-- Takes characters of the line as long as they pass the test. -/
def takeWhile (p : Char → Bool) (k : Cursor) : List Char × Cursor :=
  let cs := k.rest.takeWhile p
  (cs, { k with
    rest := k.rest.dropWhile p, index := k.index + width cs, column := k.column + cs.length })

def skipWhile (p : Char → Bool) (k : Cursor) : Cursor := (k.takeWhile p).2

/-- A line of three dashes, or of three points, begins here. -/
def documentMark (k : Cursor) (c : Char) : Bool :=
  k.column == 0 && k.isAt 0 c && k.isAt 1 c && k.isAt 2 c && k.gapOrEnd 3

def anyDocumentMark (k : Cursor) : Bool := k.documentMark '-' || k.documentMark '.'

end Cursor

end UiConformance.Yaml
