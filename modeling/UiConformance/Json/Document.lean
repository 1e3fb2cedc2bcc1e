import UiConformance.Decimal.Layout
import UiConformance.Property.Value

/-!
# Writing JSON

A JSON document and its two written forms: on one line, or with every item and member on a line of
its own. In texts only quotes, backslashes and control characters are escaped.
-/

namespace UiConformance.Json

inductive Document where
  | null
  | bool (b : Bool)
  | int (i : Int)
  | double (x : Float)
  | text (s : String)
  | list (items : List Document)
  | object (members : List (String × Document))

instance : Inhabited Document := ⟨.null⟩

/-! ## Texts -/

def hexDigit (n : Nat) : Char := "0123456789abcdef".toList.getD n '0'

def escapedChar (c : Char) : List Char :=
  match c with
  | '"' => ['\\', '"']
  | '\\' => ['\\', '\\']
  | '\x08' => ['\\', 'b']
  | '\x0c' => ['\\', 'f']
  | '\n' => ['\\', 'n']
  | '\r' => ['\\', 'r']
  | '\t' => ['\\', 't']
  | c =>
    if c.toNat < 0x20 then ['\\', 'u', '0', '0', hexDigit (c.toNat / 16), hexDigit (c.toNat % 16)]
    else [c]

def quotedText (s : String) : String :=
  String.ofList ('"' :: s.toList.flatMap escapedChar ++ ['"'])

example : quotedText "a\"\x01é" = "\"a\\\"\\u0001é\"" := by cbv

/-! ## Documents -/

namespace Document

/-- The space between the parts of a document. -/
structure Spacing where
  /-- The beginning of a line at a depth. -/
  lineStart : Nat → String
  colon : String

def Spacing.compact : Spacing := ⟨fun _ => "", ":"⟩

def Spacing.pretty : Spacing :=
  ⟨fun depth => String.ofList ('\n' :: List.replicate (2 * depth) ' '), ": "⟩

mutual

def render (f : Spacing) (depth : Nat) : Document → String
  | null => "null"
  | bool b => toString b
  | int i => toString i
  | double x => Decimal.jsonText x
  | text s => quotedText s
  | list [] => "[]"
  | list (d :: ds) =>
    "[" ++ f.lineStart (depth + 1) ++ render f (depth + 1) d ++ renderItems f (depth + 1) ds ++
      f.lineStart depth ++ "]"
  | object [] => "\x7b\x7d"
  | object ((k, d) :: ms) =>
    "\x7b" ++ f.lineStart (depth + 1) ++ quotedText k ++ f.colon ++ render f (depth + 1) d ++
      renderMembers f (depth + 1) ms ++ f.lineStart depth ++ "\x7d"

/-- The items after the first one. -/
def renderItems (f : Spacing) (depth : Nat) : List Document → String
  | [] => ""
  | d :: ds => "," ++ f.lineStart depth ++ render f depth d ++ renderItems f depth ds

/-- The members after the first one. -/
def renderMembers (f : Spacing) (depth : Nat) : List (String × Document) → String
  | [] => ""
  | (k, d) :: ms =>
    "," ++ f.lineStart depth ++ quotedText k ++ f.colon ++ render f depth d ++
      renderMembers f depth ms

end

def compact (d : Document) : String := d.render .compact 0

def pretty (d : Document) : String := d.render .pretty 0

/-- The member of an object. -/
def member? : Document → String → Option Document
  | object ms, k => (ms.find? fun m => m.1 == k).map (·.2)
  | _, _ => none

end Document

end UiConformance.Json

namespace UiConformance

open Json (Document)

def Rect.document (r : Rect) : Document :=
  .object [("left", .double r.left), ("top", .double r.top), ("right", .double r.right),
    ("bottom", .double r.bottom)]

def PropertyValue.document : PropertyValue → Document
  | .bool b => .bool b
  | .int i => .int i
  | .double x => .double x
  | .text s => .text s
  | .rect r => r.document

end UiConformance
