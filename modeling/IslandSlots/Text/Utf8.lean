/-!
# UTF-8

Text as its sequence of bytes, and bytes read back as text. Reading never fails: each maximal run
of bytes that begins a character and cannot complete one reads as a single replacement character.
-/

namespace IslandSlots.Text

/-- The number of bytes a sequence of characters takes. -/
def byteLength (text : List Char) : Nat :=
  text.foldr (fun c length => c.utf8Size + length) 0

@[simp]
theorem byteLength_nil : byteLength [] = 0 := rfl

@[simp]
theorem byteLength_cons (c : Char) (text : List Char) :
    byteLength (c :: text) = c.utf8Size + byteLength text := rfl

@[simp]
theorem byteLength_append (left right : List Char) :
    byteLength (left ++ right) = byteLength left + byteLength right := by
  induction left with
  | nil => simp
  | cons c left induction => simp [induction, Nat.add_assoc]

/-- The characters at the front of a text that lie within the first bytes. -/
def takeBytes : Nat → List Char → List Char
  | _, [] => []
  | size, c :: rest =>
    if c.utf8Size ≤ size then c :: takeBytes (size - c.utf8Size) rest else []

/-- The bytes of a sequence of characters. -/
def encode (text : List Char) : List UInt8 :=
  text.flatMap String.utf8EncodeChar

@[simp]
theorem encode_nil : encode [] = [] := rfl

theorem encode_append (left right : List Char) :
    encode (left ++ right) = encode left ++ encode right := by
  simp [encode]

/-- The bytes of a string. -/
def bytes (text : String) : List UInt8 :=
  encode text.toList

/-- A byte as the character of its number. -/
def byteChar (b : UInt8) : Char :=
  Char.ofNat b.toNat

/-- The byte that has the number of a character, for characters up to number 255. -/
def charByte (c : Char) : UInt8 :=
  UInt8.ofNat c.toNat

/-- The character that stands for bytes that spell none. -/
def replacement : Char := '\uFFFD'

/-- A character whose first bytes are read: how many bytes it still needs, the bounds of the next
one, and the number read so far. -/
structure PartialChar where
  /-- Bytes that are still to come. -/
  owed : Nat
  /-- Least value of the next byte. -/
  least : UInt8
  /-- Greatest value of the next byte. -/
  greatest : UInt8
  /-- The bits read so far. -/
  value : Nat
  deriving DecidableEq

/-- Reads a byte where a character may begin. -/
def firstByte (b : UInt8) : List Char × Option PartialChar :=
  if b < 0x80 then ([Char.ofNat b.toNat], none)
  else if 0xC2 ≤ b && b ≤ 0xDF then ([], some ⟨1, 0x80, 0xBF, b.toNat % 32⟩)
  else if b == 0xE0 then ([], some ⟨2, 0xA0, 0xBF, 0⟩)
  else if b == 0xED then ([], some ⟨2, 0x80, 0x9F, 13⟩)
  else if 0xE1 ≤ b && b ≤ 0xEF then ([], some ⟨2, 0x80, 0xBF, b.toNat % 16⟩)
  else if b == 0xF0 then ([], some ⟨3, 0x90, 0xBF, 0⟩)
  else if 0xF1 ≤ b && b ≤ 0xF3 then ([], some ⟨3, 0x80, 0xBF, b.toNat % 8⟩)
  else if b == 0xF4 then ([], some ⟨3, 0x80, 0x8F, 4⟩)
  else ([replacement], none)

/-- Reads one byte: the characters it settles, and the character it leaves unfinished. -/
def nextByte : Option PartialChar → UInt8 → List Char × Option PartialChar
  | none, b => firstByte b
  | some p, b =>
    if p.least ≤ b && b ≤ p.greatest then
      let value := p.value * 64 + b.toNat % 64
      if p.owed ≤ 1 then ([Char.ofNat value], none)
      else ([], some ⟨p.owed - 1, 0x80, 0xBF, value⟩)
    else
      let (chars, next) := firstByte b
      (replacement :: chars, next)

/-- Reads bytes after an unfinished character. -/
def decodeFrom : Option PartialChar → List UInt8 → List Char
  | none, [] => []
  | some _, [] => [replacement]
  | unfinished, b :: rest =>
    let (chars, next) := nextByte unfinished b
    chars ++ decodeFrom next rest

/-- The text that a sequence of bytes spells, with a replacement character for each maximal part
of it that spells none. -/
def decode (bs : List UInt8) : List Char :=
  decodeFrom none bs

/-- The text of bytes that are UTF-8 throughout. -/
def decode? (bs : List UInt8) : Option String :=
  String.fromUTF8? ⟨bs.toArray⟩

end IslandSlots.Text
