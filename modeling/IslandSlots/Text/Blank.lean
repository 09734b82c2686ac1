/-!
# White space

The characters with the Unicode property `White_Space`, and text with such characters taken off
its ends. A single byte counts as blank when the character with that code point is.
-/

namespace IslandSlots.Text

/-- Whether a character has the Unicode property `White_Space`. -/
def isBlank (c : Char) : Bool :=
  let n := c.toNat
  (9 ≤ n && n ≤ 13) || n == 0x20 || n == 0x85 || n == 0xA0 || n == 0x1680 ||
    (0x2000 ≤ n && n ≤ 0x200A) || n == 0x2028 || n == 0x2029 || n == 0x202F || n == 0x205F ||
    n == 0x3000

/-- Whether a byte, read as the code point of that number, is blank. -/
def isBlankByte (b : UInt8) : Bool :=
  (9 ≤ b && b ≤ 13) || b == 0x20 || b == 0x85 || b == 0xA0

/-- Whether every character of a text is blank. -/
def allBlank (text : String) : Bool :=
  text.toList.all isBlank

/-- A text without its leading blanks. -/
def trimStart (text : List Char) : List Char :=
  text.dropWhile isBlank

/-- A text without its trailing blanks. -/
def trimEnd (text : List Char) : List Char :=
  (text.reverse.dropWhile isBlank).reverse

/-- A text without the blanks at its two ends. -/
def trim (text : List Char) : List Char :=
  trimEnd (trimStart text)

/-- A string without the blanks at its two ends. -/
def trimmed (text : String) : String :=
  String.ofList (trim text.toList)

end IslandSlots.Text
