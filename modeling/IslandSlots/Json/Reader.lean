import IslandSlots.Json.Value

/-!
# Reading JSON

A text is JSON when it is one value with nothing but white space around it. White space is the
space, the tab, the line feed and the carriage return; strings hold no raw control character; a
number has no leading zero, sign `+` or bare point. A string whose escapes leave a surrogate alone
has a place in a text but spells no text.
-/

namespace IslandSlots.Json

/-- Whether JSON allows a character between its tokens. -/
def isSpace (c : Char) : Bool :=
  c == ' ' || c == '\t' || c == '\n' || c == '\r'

/-- A text after its leading white space. -/
def skipSpace (text : List Char) : List Char :=
  text.dropWhile isSpace

/-- The value of a hexadecimal digit. -/
def hexDigit? (c : Char) : Option Nat :=
  if c.isDigit then some (c.toNat - '0'.toNat)
  else if 'a' ≤ c && c ≤ 'f' then some (c.toNat - 'a'.toNat + 10)
  else if 'A' ≤ c && c ≤ 'F' then some (c.toNat - 'A'.toNat + 10)
  else none

/-- Four hexadecimal digits as a code unit. -/
def codeUnit? (a b c d : Char) : Option Nat := do
  return ((← hexDigit? a) * 16 + (← hexDigit? b)) * 256 + (← hexDigit? c) * 16 + (← hexDigit? d)

/-- The character that an escape of one letter stands for. -/
def letterEscape? (c : Char) : Option Char :=
  if c = '"' || c = '\\' || c = '/' then some c
  else if c = 'b' then some '\x08'
  else if c = 'f' then some '\x0c'
  else if c = 'n' then some '\n'
  else if c = 'r' then some '\r'
  else if c = 't' then some '\t'
  else none

/-- The code units and characters of a string up to its closing quote, and the text after it. A
character outside the escapes counts as its code point. -/
def stringUnits : List Char → Option (List Nat × List Char)
  | [] => none
  | '"' :: rest => some ([], rest)
  | '\\' :: 'u' :: a :: b :: c :: d :: rest => do
    let unit ← codeUnit? a b c d
    let (units, after) ← stringUnits rest
    return (unit :: units, after)
  | '\\' :: c :: rest => do
    let escaped ← letterEscape? c
    let (units, after) ← stringUnits rest
    return (escaped.toNat :: units, after)
  | c :: rest =>
    if c.toNat < 0x20 || c = '\\' then none
    else do
      let (units, after) ← stringUnits rest
      return (c.toNat :: units, after)

/-- The text of code units, with a pair of surrogates read as one character. -/
def unitsText? : List Nat → Option (List Char)
  | [] => some []
  | high :: rest =>
    if 0xD800 ≤ high && high < 0xDC00 then
      match rest with
      | low :: rest =>
        if 0xDC00 ≤ low && low < 0xE000 then
          (unitsText? rest).map
            (Char.ofNat (0x10000 + (high - 0xD800) * 0x400 + (low - 0xDC00)) :: ·)
        else none
      | [] => none
    else if 0xDC00 ≤ high && high < 0xE000 then none
    else (unitsText? rest).map (Char.ofNat high :: ·)

/-- A string after its opening quote: its text, if it spells one, and what follows it. -/
def readString (text : List Char) : Option (Option String × List Char) := do
  let (units, rest) ← stringUnits text
  return ((unitsText? units).map String.ofList, rest)

/-- The digits at the front of a text. -/
def digits (text : List Char) : List Char × List Char :=
  text.span Char.isDigit

/-- At least one digit at the front of a text. -/
def someDigits (text : List Char) : Option (List Char × List Char) :=
  match digits text with
  | ([], _) => none
  | found => some found

/-- The integer part of a number. -/
def integerPart : List Char → Option (List Char × List Char)
  | '0' :: rest => if (rest.head?.any Char.isDigit) then none else some (['0'], rest)
  | text => someDigits text

/-- The fraction of a number, if it has one. -/
def fractionPart : List Char → Option (List Char × List Char)
  | '.' :: rest => (someDigits rest).map fun (found, after) => ('.' :: found, after)
  | text => some ([], text)

/-- The exponent of a number, if it has one. -/
def exponentPart : List Char → Option (List Char × List Char)
  | e :: rest =>
    if e = 'e' || e = 'E' then
      match rest with
      | sign :: more =>
        if sign = '+' || sign = '-' then
          (someDigits more).map fun (found, after) => (e :: sign :: found, after)
        else (someDigits rest).map fun (found, after) => (e :: found, after)
      | [] => none
    else some ([], e :: rest)
  | [] => some ([], [])

/-- A number at the front of a text. -/
def readNumber (text : List Char) : Option (Json × List Char) := do
  let (sign, unsigned) := match text with
    | '-' :: rest => (['-'], rest)
    | _ => ([], text)
  let (whole, rest) ← integerPart unsigned
  let (fraction, rest) ← fractionPart rest
  let (exponent, rest) ← exponentPart rest
  return (.number (String.ofList (sign ++ whole ++ fraction ++ exponent)), rest)

/-- An object, unless one of its names spells no text. -/
def ofMembers (members : List (Option String × Json)) : Json :=
  match members.mapM fun (name, value) => name.map (·, value) with
  | some members => .object members
  | none => .unreadable

mutual

/-- A value at the front of a text, in which nothing nests deeper than `depth`. -/
def readValue (depth : Nat) (text : List Char) : Option (Json × List Char) :=
  match depth with
  | 0 => none
  | depth + 1 =>
    match skipSpace text with
    | 'n' :: 'u' :: 'l' :: 'l' :: rest => some (.null, rest)
    | 't' :: 'r' :: 'u' :: 'e' :: rest => some (.bool true, rest)
    | 'f' :: 'a' :: 'l' :: 's' :: 'e' :: rest => some (.bool false, rest)
    | '"' :: rest => do
      let (content, rest) ← readString rest
      return (content.elim .unreadable .string, rest)
    | '[' :: rest =>
      match skipSpace rest with
      | ']' :: rest => some (.array [], rest)
      | rest => do
        let (items, rest) ← readItems depth rest
        return (.array items, rest)
    | '\x7b' :: rest =>
      match skipSpace rest with
      | '\x7d' :: rest => some (.object [], rest)
      | rest => do
        let (members, rest) ← readMembers depth rest
        return (ofMembers members, rest)
    | rest => readNumber rest

/-- The items of an array, which has at least one, and its closing bracket. -/
def readItems (depth : Nat) (text : List Char) : Option (List Json × List Char) :=
  match depth with
  | 0 => none
  | depth + 1 => do
    let (item, rest) ← readValue depth text
    match skipSpace rest with
    | ',' :: rest =>
      let (items, rest) ← readItems depth rest
      return (item :: items, rest)
    | ']' :: rest => return ([item], rest)
    | _ => none

/-- The members of an object, which has at least one, and its closing brace. -/
def readMembers (depth : Nat) (text : List Char) :
    Option (List (Option String × Json) × List Char) :=
  match depth with
  | 0 => none
  | depth + 1 =>
    match skipSpace text with
    | '"' :: rest => do
      let (name, rest) ← readString rest
      match skipSpace rest with
      | ':' :: rest =>
        let (value, rest) ← readValue depth rest
        match skipSpace rest with
        | ',' :: rest =>
          let (members, rest) ← readMembers depth rest
          return ((name, value) :: members, rest)
        | '\x7d' :: rest => return ([(name, value)], rest)
        | _ => none
      | _ => none
    | _ => none

end

/-- The value that a text writes. Each step of the reader takes a character of the text, so its
length bounds how deep values nest and how many items follow one another. -/
def parse? (text : String) : Option Json :=
  let chars := text.toList
  match readValue (2 * chars.length + 2) chars with
  | some (value, rest) => if (skipSpace rest).isEmpty then some value else none
  | none => none

end IslandSlots.Json
