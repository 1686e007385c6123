import SlotScript.Text.Graphic

/-!
# Quoted texts

A text in double quotes, written so that every character of it shows: the quote, the backslash
and the common control characters have short escapes, and every other character that is not
graphic is written as its code point in hexadecimal.
-/

namespace SlotScript.Text

/-- A code point as `\u\x7bhex\x7d` without leading zeros. -/
def escapeCodePoint (c : Char) : List Char :=
  ['\\', 'u', '\x7b'] ++ Nat.toDigits 16 c.toNat ++ ['\x7d']

/-- A character as it stands between quotes. -/
def escape (c : Char) : List Char :=
  if c == '"' then ['\\', '"']
  else if c == '\\' then ['\\', '\\']
  else if c == '\n' then ['\\', 'n']
  else if c == '\r' then ['\\', 'r']
  else if c == '\t' then ['\\', 't']
  else if c == '\x00' then ['\\', '0']
  else if isGraphic c then [c]
  else escapeCodePoint c

/-- A text in double quotes. -/
def quote (text : String) : String :=
  String.ofList ('"' :: (text.toList.flatMap escape ++ ['"']))

end SlotScript.Text
