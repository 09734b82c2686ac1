import IslandSlots.Json.Value

/-!
# Written JSON

JSON text with one member or item on a line, two spaces deeper than the brackets around it. Only
the quote, the backslash and the control characters are escaped in strings.
-/

namespace IslandSlots.Json

/-- How one character is written inside a JSON string. -/
def escapedChar (c : Char) : List Char :=
  if c = '"' then ['\\', '"']
  else if c = '\\' then ['\\', '\\']
  else if c = '\n' then ['\\', 'n']
  else if c = '\r' then ['\\', 'r']
  else if c = '\t' then ['\\', 't']
  else if c.toNat = 8 then ['\\', 'b']
  else if c.toNat = 12 then ['\\', 'f']
  else if c.toNat < 0x20 then
    ['\\', 'u', '0', '0', Nat.digitChar (c.toNat / 16), Nat.digitChar (c.toNat % 16)]
  else [c]

/-- A JSON string. -/
def writeString (text : String) : String :=
  String.ofList ('"' :: text.toList.flatMap escapedChar ++ ['"'])

/-- A new line with the given number of spaces. -/
def newLine (indent : Nat) : String :=
  String.ofList ('\n' :: List.replicate indent ' ')

mutual

/-- A value on lines of their own, the first of which is already indented. -/
def write (indent : Nat) : Json → String
  | .null => "null"
  | .bool value => if value then "true" else "false"
  | .number spelling => spelling
  | .string text => writeString text
  | .array [] => "[]"
  | .array (item :: items) =>
    "[" ++ newLine (indent + 2) ++ write (indent + 2) item ++ writeItems (indent + 2) items ++
      newLine indent ++ "]"
  | .object [] => "\x7b\x7d"
  | .object ((name, value) :: members) =>
    "\x7b" ++ newLine (indent + 2) ++ writeString name ++ ": " ++ write (indent + 2) value ++
      writeMembers (indent + 2) members ++ newLine indent ++ "\x7d"
  | .unreadable => "null"

/-- The items of an array after the first. -/
def writeItems (indent : Nat) : List Json → String
  | [] => ""
  | item :: items => "," ++ newLine indent ++ write indent item ++ writeItems indent items

/-- The members of an object after the first. -/
def writeMembers (indent : Nat) : List (String × Json) → String
  | [] => ""
  | (name, value) :: members =>
    "," ++ newLine indent ++ writeString name ++ ": " ++ write indent value ++
      writeMembers indent members

end

/-- The text of a value. -/
def render (value : Json) : String :=
  write 0 value

end IslandSlots.Json
