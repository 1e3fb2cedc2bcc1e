/-!
# Painted texts

A look is the codes of a colour and of styles. A painter writes a text with a look. That of a
terminal puts the text between the sequence that turns the look on and the one that ends it; where
colour is switched off, a text stays as it is.
-/

namespace UiConformance.Text

/-- The codes of a look; without any a text is left as it is. -/
abbrev Look := List Nat

namespace Look

def bold : Nat := 1
def dimmed : Nat := 2
def underlined : Nat := 4
def red : Nat := 31
def green : Nat := 32
def yellow : Nat := 33
def blue : Nat := 34
def magenta : Nat := 35
def cyan : Nat := 36

def codes (look : Look) : List Char := List.intercalate [';'] (look.map (Nat.toDigits 10))

/-- Turns a look on. -/
def sequence (look : Look) : List Char := ['\x1b', '['] ++ look.codes ++ ['m']

/-- Ends every look. -/
def ending : List Char := sequence [0]

example : sequence [bold, red] = ['\x1b', '[', '1', ';', '3', '1', 'm'] := by cbv

/-- Turns a look on again after every sequence in the text that ends it. -/
def resume (look : Look) : List Char → List Char
  | '\x1b' :: '[' :: '0' :: 'm' :: cs => ending ++ sequence look ++ resume look cs
  | c :: cs => c :: resume look cs
  | [] => []

end Look

abbrev Painter := Look → String → String

namespace Painter

def ofTerminal (colour : Bool) : Painter := fun look s =>
  if colour && !look.isEmpty then
    String.ofList (Look.sequence look ++ Look.resume look s.toList ++ Look.ending)
  else s

end Painter

end UiConformance.Text
