import UiConformance.Text.Unseen

/-!
# Quoted texts

A text in double quotes as messages show it: quotes, backslashes and what cannot be seen on its own
are escaped.
-/

namespace UiConformance.Text

def quotedChar (c : Char) : List Char :=
  match c with
  | '"' => ['\\', '"']
  | '\\' => ['\\', '\\']
  | '\n' => ['\\', 'n']
  | '\r' => ['\\', 'r']
  | '\t' => ['\\', 't']
  | '\x00' => ['\\', '0']
  | c =>
    if isUnseen c then ['\\', 'u', '\x7b'] ++ Nat.toDigits 16 c.toNat ++ ['\x7d'] else [c]

def quoted (s : String) : String :=
  String.ofList ('"' :: s.toList.flatMap quotedChar ++ ['"'])

example : quoted "a\"b\n\x01é" = "\"a\\\"b\\n\\u\x7b1\x7dé\"" := by decide +kernel

end UiConformance.Text
