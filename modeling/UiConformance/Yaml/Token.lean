import UiConformance.Yaml.ScalarText
import UiConformance.Yaml.Tag

/-!
# YAML tokens

A YAML text as a list of tokens. Indentation is made explicit by tokens that open and close block
lists and maps. Whether a value was the key of a map is known only when its colon comes, so the
place of every value that may turn out to be a key is remembered, and the tokens that announce the
key are put in there.
-/

namespace UiConformance.Yaml

inductive Token
  | versionDirective (major minor : Nat)
  | tagDirective (handle : String) (meaning : Tag)
  | documentStart
  | documentEnd
  | openBlockList
  | openBlockMap
  | closeBlock
  | openFlowList
  | closeFlowList
  | openFlowMap
  | closeFlowMap
  | entry
  | separator
  | key
  | value
  | alias (name : String)
  | anchor (name : String)
  | tag (handle : String) (suffix : Tag)
  | scalar (plain : Bool) (literal : Bool) (text : String)
  deriving DecidableEq, Repr, Inhabited

def Token.endsDocument : Token → Bool
  | versionDirective .. | tagDirective .. | documentStart | documentEnd => true
  | _ => false

/-- A value that may turn out to be a key: where its first token stands. -/
structure KeyPlace where
  /-- Nothing but a key may stand here. -/
  required : Bool
  token : Nat
  index : Nat
  line : Nat
  column : Nat

structure Scan where
  cursor : Cursor
  tokens : Array Token := #[]
  /-- The column of the innermost block, and of those around it. -/
  indent : Int := -1
  indents : List Int := []
  /-- The key places of the innermost brackets, and of what is around them. -/
  place : Option KeyPlace := none
  places : List (Option KeyPlace) := []
  keyAllowed : Bool := true

namespace Scan

def flowLevel (s : Scan) : Nat := s.places.length

def inFlow (s : Scan) : Bool := s.flowLevel != 0

def emit (s : Scan) (t : Token) : Scan := { s with tokens := s.tokens.push t }

/-- Emits the token of the next characters. -/
def emitSkipping (s : Scan) (n : Nat) (t : Token) : Scan :=
  { s.emit t with cursor := s.cursor.skipMany n }

/-! ## Key places -/

/-- A key must end on its line and within 1024 bytes. -/
def isStale (c : Cursor) (p : KeyPlace) : Bool := p.line < c.line || p.index + 1024 < c.index

/-- Forgets the key places that can no longer be keys. -/
def dropStale (s : Scan) : Option Scan :=
  let check (p : Option KeyPlace) : Option (Option KeyPlace) :=
    match p with
    | none => some none
    | some p => if isStale s.cursor p then (if p.required then none else some none) else some (some p)
  do return { s with place := ← check s.place, places := ← s.places.mapM check }

def dropPlace (s : Scan) : Option Scan :=
  match s.place with
  | some p => if p.required then none else some { s with place := none }
  | none => some s

/-- Remembers that the next token may turn out to begin a key. -/
def savePlace (s : Scan) : Option Scan :=
  if s.keyAllowed then do
    let required := !s.inFlow && s.indent == s.cursor.column
    let c := s.cursor
    return { ← s.dropPlace with place := some ⟨required, s.tokens.size, c.index, c.line, c.column⟩ }
  else some s

/-! ## Indentation -/

/-- Opens a block at a column that lies further in; its token goes to the given place. -/
def openBlock (s : Scan) (column : Nat) (t : Token) (place : Nat) : Scan :=
  if s.inFlow || (column : Int) ≤ s.indent then s
  else
    { s with
      indents := s.indent :: s.indents, indent := column
      tokens := s.tokens.insertIdxIfInBounds place t }

/-- Closes the blocks that lie further in than a column. -/
def closeBlocks (s : Scan) (column : Int) : Scan :=
  if s.inFlow then s
  else
    let rec go : List Int → Int → Array Token → List Int × Int × Array Token
      | [], indent, ts => ([], indent, ts)
      | outer :: rest, indent, ts =>
        if column < indent then go rest outer (ts.push .closeBlock) else (outer :: rest, indent, ts)
    let (indents, indent, tokens) := go s.indents s.indent s.tokens
    { s with indents, indent, tokens }

/-! ## White space -/

/-- Passes over blanks, comments and breaks, and over a byte order mark at the beginning of a line,
which takes up a column. Where a key may begin, tabs are no blanks. -/
def skipToToken : Nat → Scan → Scan
  | 0, s => s
  | steps + 1, s =>
    let k := if s.cursor.column == 0 && s.cursor.isAt 0 '\ufeff' then s.cursor.skip else s.cursor
    let k := k.skipWhile fun c => c == ' ' || c == '\t' && (s.inFlow || !s.keyAllowed)
    let k := if k.isAt 0 '#' then k.skipWhile fun c => !isBreak c else k
    if (k.peek 0).any isBreak then
      skipToToken steps { s with cursor := k.takeBreak.2, keyAllowed := s.keyAllowed || !s.inFlow }
    else { s with cursor := k }

/-! ## Directives, anchors and tags -/

/-- What may follow a directive on its line. -/
def endOfLine (k : Cursor) : Option Cursor :=
  let k := k.skipWhile isBlank
  let k := if k.isAt 0 '#' then k.skipWhile fun c => !isBreak c else k
  if k.breakOrEnd 0 then some k.takeBreak.2 else none

def takeNumber (k : Cursor) : Option (Nat × Cursor) :=
  let (ds, k) := k.takeWhile Char.isDigit
  if ds.isEmpty || 9 < ds.length then none else some (Nat.ofDigitChars 10 ds 0, k)

def isTagChar (inUri : Bool) (c : Char) : Bool :=
  isWordChar c || [';', '/', '?', ':', '@', '&', '=', '+', '$', '.', '%', '!', '~', '*', '\'', '(', ')'].contains c
    || inUri && [',', '[', ']'].contains c

/-- The characters of a tag or of the rest of one. -/
def takeTagText (inUri : Bool) (k : Cursor) : List Char × Cursor := k.takeWhile (isTagChar inUri)

/-- A handle: exclamation marks around a word, or one alone before a word. -/
def takeTagHandle (k : Cursor) : List Char × Cursor :=
  let (word, k) := k.skip.takeWhile isWordChar
  if k.isAt 0 '!' then ('!' :: word ++ ['!'], k.skip) else ('!' :: word, k)

def directive (s : Scan) : Option Scan := do
  let (name, k) := s.cursor.skip.takeWhile isWordChar
  let gap := k.gapOrEnd 0
  let k := k.skipWhile isBlank
  match gap, String.ofList name with
  | true, "YAML" => do
    let (major, k) ← takeNumber k
    if !k.isAt 0 '.' then none
    else
      let (minor, k) ← takeNumber k.skip
      return { s.emit (.versionDirective major minor) with cursor := ← endOfLine k }
  | true, "TAG" => do
    if !k.isAt 0 '!' then none
    else
      let (handle, k) := takeTagHandle k
      if handle.length ≠ 1 ∧ handle.getLast? ≠ some '!' ∨ !k.gapOrEnd 0 then none
      else
        let (uri, k) := takeTagText true (k.skipWhile isBlank)
        if uri.isEmpty || !k.gapOrEnd 0 then none
        else
          return { s.emit (.tagDirective (String.ofList handle) (← Tag.ofWritten? uri)) with
            cursor := ← endOfLine k }
  | _, _ => none

def takeName (k : Cursor) : Option (String × Cursor) :=
  let (name, k) := k.skip.takeWhile isWordChar
  let ended := k.gapOrEnd 0 ||
    (k.peek 0).any fun c => ['?', ':', ',', ']', '\x7d', '%', '@', '`'].contains c
  if name.isEmpty || !ended then none else some (String.ofList name, k)

/-- A tag as written: whole between angle brackets, after a handle, or after the mark of the tags of
the document, which is a tag by itself. -/
def takeTag (k : Cursor) : Option (Token × Cursor) :=
  if k.isAt 1 '<' then
    let (text, k) := takeTagText true (k.skipMany 2)
    if text.isEmpty || !k.isAt 0 '>' then none
    else (Tag.ofWritten? text).map fun t => (.tag "" t, k.skip)
  else
    let (handle, k) := takeTagHandle k
    let (text, k) := takeTagText false k
    if 1 < handle.length ∧ handle.getLast? = some '!' then
      if text.isEmpty then none
      else (Tag.ofWritten? text).map fun t => (.tag (String.ofList handle) t, k)
    else
      (Tag.ofWritten? (handle.tail ++ text)).map fun t =>
        (if t.bytes.isEmpty then .tag "" .mark else .tag "!" t, k)

/-! ## Tokens -/

def openFlow (s : Scan) (t : Token) : Option Scan := do
  let s ← s.savePlace
  return { s.emitSkipping 1 t with places := s.place :: s.places, place := none, keyAllowed := true }

def closeFlow (s : Scan) (t : Token) : Option Scan := do
  let s ← s.dropPlace
  let s := match s.places with
    | [] => s
    | p :: ps => { s with place := p, places := ps }
  return { s.emitSkipping 1 t with keyAllowed := false }

/-- A dash before an entry, or a question mark before a key. -/
def blockIndicator (s : Scan) (opening t : Token) (keyAfter : Bool) : Option Scan := do
  if !s.inFlow && !s.keyAllowed then none
  else
    let s := s.openBlock s.cursor.column opening s.tokens.size
    return { (← s.dropPlace).emitSkipping 1 t with keyAllowed := keyAfter }

/-- A colon: what stood at the key place was a key, or an explicit key came before. -/
def valueIndicator (s : Scan) : Option Scan :=
  match s.place with
  | some p =>
    let s := { s with tokens := s.tokens.insertIdxIfInBounds p.token .key, place := none }
    let s := s.openBlock p.column .openBlockMap p.token
    some { s.emitSkipping 1 .value with keyAllowed := false }
  | none =>
    if !s.inFlow && !s.keyAllowed then none
    else
      let s := s.openBlock s.cursor.column .openBlockMap s.tokens.size
      some { s.emitSkipping 1 .value with keyAllowed := !s.inFlow }

/-- The end of the blocks before a directive or a document mark. -/
def endContent (s : Scan) : Option Scan := do
  return { ← (s.closeBlocks (-1)).dropPlace with keyAllowed := false }

def documentMark (s : Scan) (t : Token) : Option Scan := do
  return (← s.endContent).emitSkipping 3 t

/-- Something that may begin a key. -/
def content (s : Scan) (t : Token) (k : Cursor) : Option Scan := do
  let s ← s.savePlace
  return { s.emit t with cursor := k, keyAllowed := false }

def blockScalar (s : Scan) (literal : Bool) : Option Scan := do
  let s ← s.dropPlace
  let (text, k) ← s.cursor.takeBlock literal s.indent
  return { s.emit (.scalar false literal (String.ofList text)) with cursor := k, keyAllowed := true }

def quotedScalar (s : Scan) (quote : Char) : Option Scan := do
  let (text, k) ← s.cursor.takeQuoted quote
  s.content (.scalar false false (String.ofList text)) k

def plainScalar (s : Scan) : Option Scan := do
  let (text, broken, k) ← s.cursor.takePlain s.inFlow (s.indent + 1)
  let s ← s.content (.scalar true false (String.ofList text)) k
  return { s with keyAllowed := broken }

/-- The characters that cannot begin a plain scalar by themselves. -/
def isIndicator (c : Char) : Bool :=
  ['-', '?', ':', ',', '[', ']', '\x7b', '\x7d', '#', '&', '*', '!', '|', '>', '\'', '"', '%', '@',
   '`'].contains c

def next (s : Scan) (c : Char) : Option Scan :=
  let k := s.cursor
  let gapAfter := k.gapOrEnd 1
  if k.column == 0 && c == '%' then do (← s.endContent).directive
  else if k.documentMark '-' then s.documentMark .documentStart
  else if k.documentMark '.' then s.documentMark .documentEnd
  else if c == '[' then s.openFlow .openFlowList
  else if c == '\x7b' then s.openFlow .openFlowMap
  else if c == ']' then s.closeFlow .closeFlowList
  else if c == '\x7d' then s.closeFlow .closeFlowMap
  else if c == ',' then do return { (← s.dropPlace).emitSkipping 1 .separator with keyAllowed := true }
  else if c == '-' && gapAfter then s.blockIndicator .openBlockList .entry true
  else if c == '?' && (s.inFlow || gapAfter) then s.blockIndicator .openBlockMap .key (!s.inFlow)
  else if c == ':' && (s.inFlow || gapAfter) then s.valueIndicator
  else if c == '*' then do
    let (name, k) ← takeName k
    s.content (.alias name) k
  else if c == '&' then do
    let (name, k) ← takeName k
    s.content (.anchor name) k
  else if c == '!' then do
    let (t, k) ← takeTag k
    if k.gapOrEnd 0 || s.inFlow && k.isAt 0 ',' then s.content t k else none
  else if c == '|' && !s.inFlow then s.blockScalar true
  else if c == '>' && !s.inFlow then s.blockScalar false
  else if c == '\'' || c == '"' then s.quotedScalar c
  else if !isBlank c && !isIndicator c || c == '-' && !(k.peek 1).any isBlank
      || !s.inFlow && (c == '?' || c == ':') && !gapAfter then s.plainScalar
  else none

/-- Takes the tokens up to the end of the text, at most `steps` of them. -/
def run : Nat → Scan → Option Scan
  | 0, _ => none
  | steps + 1, s => do
    let s ← (s.skipToToken (s.cursor.rest.length + 1)).dropStale
    let s := s.closeBlocks s.cursor.column
    match s.cursor.peek 0 with
    | none => s.endContent
    | some c => run steps (← s.next c)

end Scan

def Token.scan (cs : List Char) : Option (Array Token) :=
  if cs.all isPrintable then (Scan.run (cs.length + 1) { cursor := { rest := cs } }).map Scan.tokens
  else none

end UiConformance.Yaml
