import UiConformance.Json.Token

/-!
# JSON events

The values of a JSON text in the order in which they begin and end, with commas and colons checked
and gone. A text that is not a JSON document gives the events before the point where it goes wrong
and then `malformed`, so that a reader of events meets whichever fault comes first. Where a value
that is no text stands in place of the first key of a map, that value is the last such event.
-/

namespace UiConformance.Json

inductive Event
  | null
  | bool (b : Bool)
  | number (n : Option Number)
  | text (s : Option String)
  | openList
  | closeList
  | openMap
  | key (s : Option String)
  | closeMap
  | malformed
  deriving Repr

/-- What encloses a place in a text, the innermost first. -/
inductive Frame
  | list
  | map
  deriving DecidableEq, Repr

inductive Expectation
  | value
  | firstItem
  | firstKey
  | key
  | colon
  /-- A comma, or the end of what encloses the place. -/
  | separator
  deriving DecidableEq, Repr

namespace Event

def ofValue? : Token → Option Event
  | .null => some .null
  | .bool b => some (.bool b)
  | .number n => some (.number n)
  | .text s => some (.text s)
  | .openList => some .openList
  | .openMap => some .openMap
  | _ => none

/-- The place after the beginning of a value. -/
def afterValue (e : Event) (frames : List Frame) : Expectation × List Frame :=
  match e with
  | .openList => (.firstItem, .list :: frames)
  | .openMap => (.firstKey, .map :: frames)
  | _ => (.separator, frames)

/-- The event of a token, if it has one, and the place after it; nothing where it may not stand. -/
def step? : Expectation → List Frame → Token → Option (Option Event × Expectation × List Frame)
  | .firstItem, .list :: frames, .closeList => some (some .closeList, .separator, frames)
  | .value, frames, t | .firstItem, frames, t =>
    (ofValue? t).map fun e => (some e, afterValue e frames)
  | .firstKey, .map :: frames, .closeMap => some (some .closeMap, .separator, frames)
  | .firstKey, frames, .text s | .key, frames, .text s => some (some (.key s), .colon, frames)
  | .colon, frames, .colon => some (none, .value, frames)
  | .separator, .list :: frames, .comma => some (none, .value, .list :: frames)
  | .separator, .map :: frames, .comma => some (none, .key, .map :: frames)
  | .separator, .list :: frames, .closeList => some (some .closeList, .separator, frames)
  | .separator, .map :: frames, .closeMap => some (some .closeMap, .separator, frames)
  | _, _, _ => none

/-- The event of a token that may not stand where it does. -/
def misplaced : Expectation → Token → List Event
  | .firstKey, t => (ofValue? t).toList
  | _, _ => []

/-- The events of the tokens that follow a place. -/
def ofTokens : Expectation → List Frame → List Token → List Event
  | .separator, [], [] => []
  | _, _, [] => [.malformed]
  | x, frames, t :: ts =>
    match step? x frames t with
    | some (some e, x, frames) => e :: ofTokens x frames ts
    | some (none, x, frames) => ofTokens x frames ts
    | none => misplaced x t ++ [.malformed]

def ofText (s : String) : List Event := ofTokens .value [] (Token.scan s.toList)

end Event

end UiConformance.Json
