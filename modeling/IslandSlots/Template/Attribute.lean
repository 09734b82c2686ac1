import IslandSlots.Template.Basic
import IslandSlots.Text.Search
import IslandSlots.Text.Utf8

/-!
# Attributes in templates

The mark at the front of the name of an attribute says what kind it is. The name of a directive
has one spelling, in lower case with single dashes between its words; an argument after a colon
stays as it is. Attributes are read byte by byte: a byte that reads as a blank character of its
number ends a name or an unquoted value even inside a longer character, and the bytes of a value
that spell no character then show as replacement characters.
-/

namespace IslandSlots.TemplateAttribute

/-- The characters of one letter in the name of a directive. -/
def dashed (c : Char) : List Char :=
  if c = '_' then ['-'] else if c.isUpper then ['-', c.toLower] else [c]

/-- A text in which no dash follows another. -/
def singleDashes : List Char → List Char
  | '-' :: '-' :: rest => singleDashes ('-' :: rest)
  | c :: rest => c :: singleDashes rest
  | [] => []

/-- A text without dashes at its ends. -/
def trimDashes (text : List Char) : List Char :=
  ((text.dropWhile (· == '-')).reverse.dropWhile (· == '-')).reverse

/-- The one spelling of the name of a directive. -/
def directiveName (written : List Char) : List Char :=
  let words := written.takeWhile (· != ':')
  trimDashes (singleDashes (words.flatMap dashed)) ++ written.dropWhile (· != ':')

/-- The mark of a bound attribute, in full. -/
def bindMark : List Char := ['v', '-', 'b', 'i', 'n', 'd', ':']

/-- The mark of an event, in full. -/
def onMark : List Char := ['v', '-', 'o', 'n', ':']

/-- The name that stands for a slot of the given name. -/
def slotDirective (name : List Char) : List Char := ['s', 'l', 'o', 't', ':'] ++ name

/-- The kind of an attribute and its name without the mark of the kind. -/
def classify (written : List Char) : AttributeKind × List Char :=
  match Text.after? bindMark written, Text.after? onMark written with
  | some name, _ => (.bind, name)
  | none, some name => (.on, name)
  | none, none =>
    match written with
    | ':' :: name => (.bind, name)
    | '@' :: name => (.on, name)
    | '#' :: name => (.directive, slotDirective name)
    | 'v' :: '-' :: name => (.directive, directiveName name)
    | name => (.plain, name)

/-- Whether a byte may stand in the name of an attribute. -/
def isNameByte (b : UInt8) : Bool :=
  let c := Text.byteChar b
  c.isAlphanum || c == '_' || c == '-' || c == ':' || c == '@' || c == '#' || c == '.' ||
    c == '[' || c == ']' || c == '$'

/-- Whether a byte is part of an unquoted value. -/
def isValueByte (b : UInt8) : Bool :=
  !Text.isBlankByte b && b != Text.charByte '>'

/-- A value at the front of the bytes after an equals sign, and what follows it. A quoted value
without a second quote goes on to the end. -/
def readValue : List UInt8 → Option (List UInt8) × List UInt8
  | [] => (none, [])
  | b :: rest =>
    if b == Text.charByte '"' || b == Text.charByte '\'' then
      (some (rest.takeWhile (· != b)), (rest.dropWhile (· != b)).drop 1)
    else if isValueByte b then
      (some (b :: rest.takeWhile isValueByte), rest.dropWhile isValueByte)
    else (none, b :: rest)

/-- The value after the name of an attribute, and what follows it. -/
def readAssignment (bytes : List UInt8) : Option (List UInt8) × List UInt8 :=
  match bytes.dropWhile Text.isBlankByte with
  | b :: rest =>
    if b == Text.charByte '=' then readValue (rest.dropWhile Text.isBlankByte) else (none, bytes)
  | [] => (none, bytes)

/-- The attribute with the given name and value, as they are written. -/
def ofWritten (name : List UInt8) (value : Option (List UInt8)) : TemplateAttribute :=
  let (kind, name) := classify (Text.decode name)
  ⟨kind, String.ofList name, value.map fun bytes => String.ofList (Text.decode bytes)⟩

/-- An attribute at the front of some bytes, and what follows it. -/
def read? (bytes : List UInt8) : Option (TemplateAttribute × List UInt8) :=
  let name := bytes.takeWhile isNameByte
  if name.isEmpty then none
  else
    let (value, rest) := readAssignment (bytes.dropWhile isNameByte)
    some (ofWritten name value, rest)

theorem length_readValue_le (bytes : List UInt8) :
    (readValue bytes).2.length ≤ bytes.length := by
  cases bytes with
  | nil => simp [readValue]
  | cons b rest =>
    have quoted := (List.dropWhile_sublist (· != b) (l := rest)).length_le
    have bare := (List.dropWhile_sublist isValueByte (l := rest)).length_le
    simp only [readValue]
    split
    · simp only [List.length_drop, List.length_cons]
      omega
    · split
      · simp only [List.length_cons]
        omega
      · simp

theorem length_readAssignment_le (bytes : List UInt8) :
    (readAssignment bytes).2.length ≤ bytes.length := by
  have blanks := (List.dropWhile_sublist Text.isBlankByte (l := bytes)).length_le
  simp only [readAssignment]
  split
  · rename_i b rest starts
    have blanks' := (List.dropWhile_sublist Text.isBlankByte (l := rest)).length_le
    have value := length_readValue_le (rest.dropWhile Text.isBlankByte)
    rw [starts] at blanks
    simp only [List.length_cons] at blanks
    split
    · omega
    · simp
  · simp

theorem length_of_read? {bytes rest : List UInt8} {attr : TemplateAttribute}
    (found : read? bytes = some (attr, rest)) : rest.length < bytes.length := by
  simp only [read?] at found
  split at found
  · simp at found
  · rename_i named
    simp only [Option.some.injEq, Prod.mk.injEq] at found
    have behind := length_readAssignment_le (bytes.dropWhile isNameByte)
    have parts := congrArg List.length (List.takeWhile_append_dropWhile (p := isNameByte) (l := bytes))
    have positive : 0 < (bytes.takeWhile isNameByte).length := by
      rw [List.length_pos_iff]
      simpa using named
    rw [List.length_append] at parts
    rw [← found.2]
    omega

end IslandSlots.TemplateAttribute
