import UiConformance.Text.Numeral

/-!
# JSON tokens

A JSON text as a list of tokens. A text that goes wrong gives the tokens before that point and then
`malformed`. Two things can only be judged where a value is used, so they are part of the token: a
number may be outside the range of floating-point numbers, and a text may hold half of a surrogate
pair.
-/

namespace UiConformance.Json

/-- A number: whole ones of at most 64 bits are kept apart from the others. -/
inductive Number
  | int (i : Int)
  | double (x : Float)
  deriving Repr

inductive Token
  | null
  | bool (b : Bool)
  /-- Nothing, where the number is out of range. -/
  | number (n : Option Number)
  /-- Nothing, where the text holds half of a surrogate pair. -/
  | text (s : Option String)
  | openList
  | closeList
  | openMap
  | closeMap
  | comma
  | colon
  | malformed
  deriving Repr

/-! ## Numbers -/

structure NumberText where
  negative : Bool := false
  whole : List Char
  fraction : Option (List Char) := none
  /-- The exponent's sign and digits. -/
  exponent : Option (Bool × List Char) := none

def digitValue (c : Char) : Nat := c.toNat - '0'.toNat

/-- Appends digits to a significand as long as it stays below `2 ^ 64`; how many were taken. -/
def appendDigits : List Char → Nat → Nat → Nat × Nat
  | [], m, taken => (m, taken)
  | c :: cs, m, taken =>
    let n := m * 10 + digitValue c
    if n < Text.word64Size then appendDigits cs n (taken + 1) else (m, taken)

def powerOfTen (n : Nat) : Float := Float.ofScientific 1 false n

/-- Divides by `10 ^ n` in strides of `10 ^ 308`; three of them take every significand to zero. -/
def divideByPower : Nat → Float → Nat → Float
  | 0, _, _ => 0
  | strides + 1, x, n =>
    if n ≤ 308 then x / powerOfTen n
    else if x == 0 then x
    else divideByPower strides (x / powerOfTen 308) (n - 308)

/-- The significand times a power of ten, by one floating-point operation for each stride; nothing
where that is out of range. -/
def scale (m : Nat) (e : Int) : Option Float :=
  let x := m.toUInt64.toFloat
  if m = 0 then some x
  else if e < 0 then some (divideByPower 4 x e.natAbs)
  else if 308 < e then none
  else
    let y := x * powerOfTen e.toNat
    if y.isInf then none else some y

/-- The value of a number as written. The significand has the digits that fit into 64 bits; further
digits of the whole part only raise the exponent, and further digits of the fraction are ignored. -/
def NumberText.value (t : NumberText) : Option Number :=
  let (m, taken) := appendDigits t.whole 0 0
  let spilled := t.whole.length - taken
  match t.fraction, t.exponent, spilled with
  | none, none, 0 =>
    if !t.negative then some (.int m)
    else if m = 0 ∨ Nat.pow 2 63 < m then some (.double (-m.toUInt64.toFloat))
    else some (.int (-m))
  | fraction, exponent, _ =>
    let (m, places) := appendDigits (fraction.getD []) m 0
    let shift : Int := match exponent with
      | none => 0
      | some (negative, ds) =>
        let e := Nat.ofDigitChars 10 ds 0
        if negative then -(e : Int) else e
    (scale m ((spilled : Int) - places + shift)).map fun x => .double (if t.negative then -x else x)

def spanDigits (cs : List Char) : List Char × List Char := cs.span Char.isDigit

def digits? (cs : List Char) : Option (List Char × List Char) :=
  match spanDigits cs with
  | ([], _) => none
  | (ds, rest) => some (ds, rest)

def exponent? : List Char → Option (Option (Bool × List Char) × List Char)
  | 'e' :: cs | 'E' :: cs =>
    let (negative, cs) := match cs with
      | '-' :: cs => (true, cs)
      | '+' :: cs => (false, cs)
      | cs => (false, cs)
    (digits? cs).map fun (ds, rest) => (some (negative, ds), rest)
  | cs => some (none, cs)

/-- A number and what follows it; a whole part of several digits does not start with zero. -/
def numberText? (cs : List Char) : Option (NumberText × List Char) := do
  let (negative, cs) := match cs with
    | '-' :: cs => (true, cs)
    | cs => (false, cs)
  let (whole, cs) ← digits? cs
  if whole.head? = some '0' ∧ whole.length ≠ 1 then none
  else
    let (fraction, cs) ← match cs with
      | '.' :: cs => (digits? cs).map fun (ds, rest) => (some ds, rest)
      | cs => some (none, cs)
    let (exponent, cs) ← exponent? cs
    return ({ negative, whole, fraction, exponent }, cs)

/-! ## Texts -/

/-- A piece of a quoted text: a character, or a 16-bit unit given by its number. -/
inductive Piece
  | char (c : Char)
  | unit (n : Nat)

def hexNumber? (cs : List Char) : Option Nat :=
  cs.foldlM (fun n c => (Text.hexValue? c).map (n * 16 + ·)) 0

def escapedChar? : Char → Option Char
  | '"' => some '"'
  | '\\' => some '\\'
  | '/' => some '/'
  | 'b' => some '\x08'
  | 'f' => some '\x0c'
  | 'n' => some '\n'
  | 'r' => some '\r'
  | 't' => some '\t'
  | _ => none

/-- The pieces up to the closing quote, in reverse, and what follows it. -/
def pieces? : List Char → List Piece → Option (List Piece × List Char)
  | [], _ => none
  | '"' :: rest, acc => some (acc, rest)
  | '\\' :: 'u' :: a :: b :: c :: d :: rest, acc =>
    match hexNumber? [a, b, c, d] with
    | some n => pieces? rest (.unit n :: acc)
    | none => none
  | '\\' :: c :: rest, acc =>
    match escapedChar? c with
    | some e => pieces? rest (.char e :: acc)
    | none => none
  | c :: rest, acc => if c.toNat < 0x20 then none else pieces? rest (.char c :: acc)

/-- Joins surrogate pairs; nothing where one half stands alone. -/
def joinUnits : List Piece → Option (List Char)
  | [] => some []
  | .char c :: rest => (joinUnits rest).map (c :: ·)
  | .unit high :: .unit low :: rest =>
    if 0xD800 ≤ high ∧ high < 0xDC00 then
      if 0xDC00 ≤ low ∧ low < 0xE000 then
        (joinUnits rest).map (Char.ofNat (0x10000 + (high - 0xD800) * 0x400 + (low - 0xDC00)) :: ·)
      else none
    else if 0xDC00 ≤ high ∧ high < 0xE000 then none
    else (joinUnits (.unit low :: rest)).map (Char.ofNat high :: ·)
  | .unit n :: rest =>
    if 0xD800 ≤ n ∧ n < 0xE000 then none else (joinUnits rest).map (Char.ofNat n :: ·)

/-! ## Tokens -/

def isSpace (c : Char) : Bool := c == ' ' || c == '\n' || c == '\t' || c == '\r'

def Token.next? : List Char → Option (Token × List Char)
  | '[' :: cs => some (.openList, cs)
  | ']' :: cs => some (.closeList, cs)
  | '\x7b' :: cs => some (.openMap, cs)
  | '\x7d' :: cs => some (.closeMap, cs)
  | ',' :: cs => some (.comma, cs)
  | ':' :: cs => some (.colon, cs)
  | 'n' :: 'u' :: 'l' :: 'l' :: cs => some (.null, cs)
  | 't' :: 'r' :: 'u' :: 'e' :: cs => some (.bool true, cs)
  | 'f' :: 'a' :: 'l' :: 's' :: 'e' :: cs => some (.bool false, cs)
  | '"' :: cs => do
    let (pieces, rest) ← pieces? cs []
    return (.text ((joinUnits pieces.reverse).map String.ofList), rest)
  | cs => do
    let (t, rest) ← numberText? cs
    return (.number t.value, rest)

/-- The tokens of a text, at most `steps` of them. -/
def Token.scanFor : Nat → List Char → List Token
  | 0, cs => if cs.all isSpace then [] else [.malformed]
  | steps + 1, cs =>
    match cs.dropWhile isSpace with
    | [] => []
    | c :: cs =>
      match Token.next? (c :: cs) with
      | some (t, rest) => t :: scanFor steps rest
      | none => [.malformed]

/-- The tokens of a text. Every token takes a character at least. -/
def Token.scan (cs : List Char) : List Token := scanFor cs.length cs

end UiConformance.Json
