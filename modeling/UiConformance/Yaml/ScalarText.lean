import UiConformance.Text.Numeral
import UiConformance.Yaml.Cursor

/-!
# Scalars as written in YAML

Plain, quoted and block scalars, each taken from a cursor as the text it stands for. A single line
break inside a plain or quoted scalar counts as a space, further ones as themselves.
-/

namespace UiConformance.Yaml

/-- White space inside a scalar: blanks of the line, or the first break and those after it. -/
structure Gap where
  blanks : List Char := []
  broken : Bool := false
  first : List Char := []
  more : List Char := []

/-- What a gap counts as between two parts of a scalar. -/
def Gap.text (g : Gap) : List Char :=
  if !g.broken then g.blanks
  else if g.first.head? == some '\n' then
    if g.more.isEmpty then [' '] else g.more
  else g.first ++ g.more

namespace Cursor

/-- Takes blanks and breaks. In a plain scalar a tab may not stand before the column `indent` of a
new line. -/
def takeGap (indent : Option Int) : Nat → Gap → Cursor → Option (Gap × Cursor)
  | 0, g, k => some (g, k)
  | steps + 1, g, k =>
    match k.peek 0 with
    | none => some (g, k)
    | some c =>
      if isBlank c then
        if g.broken && c == '\t' && indent.any fun i => (k.column : Int) < i then none
        else if g.broken then takeGap indent steps g k.skip
        else takeGap indent steps { g with blanks := g.blanks ++ [c] } k.skip
      else if isBreak c then
        let (b, k) := k.takeBreak
        if g.broken then takeGap indent steps { g with more := g.more ++ b } k
        else takeGap indent steps { g with blanks := [], broken := true, first := b } k
      else some (g, k)

/-! ## Plain scalars -/

/-- The part of a plain scalar up to the next blank, break or indicator. Inside brackets a colon may
not stand right before an indicator of the brackets. -/
def takePlainWord (inFlow : Bool) : Nat → List Char → Cursor → Option (List Char × Cursor)
  | 0, acc, k => some (acc.reverse, k)
  | steps + 1, acc, k =>
    match k.peek 0 with
    | none => some (acc.reverse, k)
    | some c =>
      if isBlank c || isBreak c then some (acc.reverse, k)
      else if inFlow && c == ':' && (k.peek 1).any fun d => [',', '?', '[', ']', '\x7b', '\x7d'].contains d then
        none
      else if c == ':' && k.gapOrEnd 1 then some (acc.reverse, k)
      else if inFlow && [',', '[', ']', '\x7b', '\x7d'].contains c then some (acc.reverse, k)
      else takePlainWord inFlow steps (c :: acc) k.skip

/-- The words of a plain scalar; `gap` lies before the next one. The flag tells whether the scalar
was followed by a break. -/
def takePlainFrom (inFlow : Bool) (indent : Int) : Nat → List Char → Gap → Cursor →
    Option (List Char × Bool × Cursor)
  | 0, text, gap, k => some (text, gap.broken, k)
  | steps + 1, text, gap, k =>
    if k.anyDocumentMark || k.isAt 0 '#' then some (text, gap.broken, k)
    else do
      let (word, k) ← k.takePlainWord inFlow k.rest.length []
      let (text, gap) := if word.isEmpty then (text, gap) else (text ++ gap.text ++ word, ({} : Gap))
      if !k.atEnd && k.gapOrEnd 0 then
        let (gap, k) ← k.takeGap (some indent) k.rest.length gap
        if !inFlow && (k.column : Int) < indent then some (text, gap.broken, k)
        else takePlainFrom inFlow indent steps text gap k
      else some (text, gap.broken, k)

def takePlain (inFlow : Bool) (indent : Int) (k : Cursor) : Option (List Char × Bool × Cursor) :=
  k.takePlainFrom inFlow indent (k.rest.length + 1) [] {}

/-! ## Quoted scalars -/

/-- A character given by `n` hexadecimal digits. -/
def takeCodePoint (n : Nat) (k : Cursor) : Option (Char × Cursor) := do
  let ds := k.rest.take n
  if ds.length ≠ n then none
  else
    let code ← ds.foldlM (fun m c => (Text.hexValue? c).map (m * 16 + ·)) 0
    if code < 0xD800 ∨ 0xE000 ≤ code ∧ code < 0x110000 then some (Char.ofNat code, k.skipMany n)
    else none

def escapedChar? : Char → Option Char
  | '0' => some '\x00'
  | 'a' => some '\x07'
  | 'b' => some '\x08'
  | 't' => some '\t'
  | '\t' => some '\t'
  | 'n' => some '\n'
  | 'v' => some '\x0b'
  | 'f' => some '\x0c'
  | 'r' => some '\r'
  | 'e' => some '\x1b'
  | ' ' => some ' '
  | '"' => some '"'
  | '/' => some '/'
  | '\\' => some '\\'
  | 'N' => some '\x85'
  | '_' => some '\xa0'
  | 'L' => some '\u2028'
  | 'P' => some '\u2029'
  | _ => none

def takeEscape (k : Cursor) : Option (Char × Cursor) := do
  match ← k.peek 0 with
  | 'x' => k.skip.takeCodePoint 2
  | 'u' => k.skip.takeCodePoint 4
  | 'U' => k.skip.takeCodePoint 8
  | c => return (← escapedChar? c, k.skip)

/-- The part of a quoted scalar up to the next blank or break, or the quote; the flag tells whether
it ended in an escaped break. -/
def takeQuotedWord (quote : Char) : Nat → List Char → Cursor → Option (List Char × Bool × Cursor)
  | 0, acc, k => some (acc.reverse, false, k)
  | steps + 1, acc, k =>
    match k.peek 0 with
    | none => some (acc.reverse, false, k)
    | some c =>
      if isBlank c || isBreak c then some (acc.reverse, false, k)
      else if quote == '\'' && c == quote && k.isAt 1 quote then
        takeQuotedWord quote steps (quote :: acc) (k.skipMany 2)
      else if c == quote then some (acc.reverse, false, k)
      else if quote == '"' && c == '\\' then
        if (k.peek 1).any isBreak then some (acc.reverse, true, k.skip.takeBreak.2)
        else do
          let (e, k) ← k.skip.takeEscape
          takeQuotedWord quote steps (e :: acc) k
      else takeQuotedWord quote steps (c :: acc) k.skip

def takeQuotedFrom (quote : Char) : Nat → List Char → Cursor → Option (List Char × Cursor)
  | 0, _, _ => none
  | steps + 1, text, k =>
    if k.anyDocumentMark || k.atEnd then none
    else do
      let (word, broken, k) ← k.takeQuotedWord quote k.rest.length []
      let text := text ++ word
      if k.isAt 0 quote then some (text, k.skip)
      else
        let (gap, k) ← k.takeGap none k.rest.length { broken }
        takeQuotedFrom quote steps (text ++ gap.text) k

def takeQuoted (quote : Char) (k : Cursor) : Option (List Char × Cursor) :=
  k.skip.takeQuotedFrom quote (k.rest.length + 1) []

/-! ## Block scalars -/

/-- What becomes of the breaks at the end of a block scalar. -/
inductive Chomping
  | strip
  | clip
  | keep
  deriving DecidableEq

def takeChomping (k : Cursor) : Option Chomping × Cursor :=
  if k.isAt 0 '+' then (some .keep, k.skip)
  else if k.isAt 0 '-' then (some .strip, k.skip)
  else (none, k)

/-- An indentation of one to nine, if there is a digit. -/
def takeIncrement (k : Cursor) : Option (Option Nat × Cursor) :=
  match k.peek 0 with
  | some c =>
    if c == '0' then none
    else if c.isDigit then some (some (c.toNat - '0'.toNat), k.skip)
    else some (none, k)
  | none => some (none, k)

/-- Empty lines and indentation before a line of a block scalar: the breaks, and the widest
indentation met. The indentation is not yet known where `indent` is zero. -/
def takeBlockBreaks (indent : Nat) : Nat → List Char → Nat → Cursor →
    Option (List Char × Nat × Cursor)
  | 0, breaks, widest, k => some (breaks, widest, k)
  | steps + 1, breaks, widest, k =>
    let within (column : Nat) : Bool := indent == 0 || column < indent
    let spaces := (k.rest.takeWhile (· == ' ')).length
    let k := k.skipMany (if indent == 0 then spaces else min spaces (indent - k.column))
    let widest := max widest k.column
    if within k.column && k.isAt 0 '\t' then none
    else if (k.peek 0).any isBreak then
      let (b, k) := k.takeBreak
      takeBlockBreaks indent steps (breaks ++ b) widest k
    else some (breaks, widest, k)

/-- The lines of a block scalar. `lead` is the break after the line before, `trail` are the empty
lines after it, and `wasBlank` tells whether that line began with a blank. -/
def takeBlockLines (literal : Bool) (indent : Nat) : Nat → List Char → List Char → List Char →
    Bool → Cursor → Option (List Char × List Char × List Char × Cursor)
  | 0, text, lead, trail, _, k => some (text, lead, trail, k)
  | steps + 1, text, lead, trail, wasBlank, k =>
    if k.column ≠ indent ∨ k.atEnd then some (text, lead, trail, k)
    else do
      let blank := (k.peek 0).any isBlank
      let folded := !literal && lead.head? == some '\n' && !wasBlank && !blank
      let joint := if folded then (if trail.isEmpty then [' '] else []) else lead
      let (line, k) := k.takeWhile fun c => !isBreak c
      let (lead, k) := k.takeBreak
      let (breaks, _, k) ← k.takeBlockBreaks indent (k.rest.length + 1) [] 0
      takeBlockLines literal indent steps (text ++ joint ++ trail ++ line) lead breaks blank k

/-- A block scalar, whose indicator comes next, inside the indentation `parent`. -/
def takeBlock (literal : Bool) (parent : Int) (k : Cursor) : Option (List Char × Cursor) := do
  let k := k.skip
  let (before, k) := k.takeChomping
  let (increment, k) ← k.takeIncrement
  let (after, k) := if before.isNone && increment.isSome then k.takeChomping else (none, k)
  let chomping := (before <|> after).getD .clip
  let k := k.skipWhile isBlank
  let k := if k.isAt 0 '#' then k.skipWhile fun c => !isBreak c else k
  if !k.breakOrEnd 0 then none
  else
    let k := k.takeBreak.2
    let given : Nat := match increment with
      | none => 0
      | some n => n + parent.toNat
    let (breaks, widest, k) ← k.takeBlockBreaks given (k.rest.length + 1) [] 0
    let indent := if given ≠ 0 then given else max (max widest (parent + 1).toNat) 1
    let (text, lead, trail, k) ← k.takeBlockLines literal indent (k.rest.length + 1) [] [] breaks false
    let text := if chomping = .strip then text else text ++ lead
    let text := if chomping = .keep then text ++ trail else text
    return (text, k)

end Cursor

end UiConformance.Yaml
