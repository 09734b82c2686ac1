import IslandSlots.Text.Printable

/-!
# Quoted text

A text between double quotes, on one line and in visible characters only: the quote and the
backslash take a backslash, four control characters have a letter of their own, and every other
character that does not print as itself is written by its code point.
-/

namespace IslandSlots.Text

/-- A code point in lower-case hexadecimal digits between braces. -/
def codePointEscape (c : Char) : List Char :=
  ['\\', 'u', '\x7b'] ++ Nat.toDigits 16 c.toNat ++ ['\x7d']

/-- How one character is written inside quotes. -/
def quotedChar (c : Char) : List Char :=
  if c = '"' then ['\\', '"']
  else if c = '\\' then ['\\', '\\']
  else if c = '\n' then ['\\', 'n']
  else if c = '\r' then ['\\', 'r']
  else if c = '\t' then ['\\', 't']
  else if c = '\x00' then ['\\', '0']
  else if isPrintable c then [c]
  else codePointEscape c

/-- A text between quotes. -/
def quoted (text : String) : String :=
  String.ofList ('"' :: text.toList.flatMap quotedChar ++ ['"'])

end IslandSlots.Text
