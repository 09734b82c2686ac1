import IslandSlots.Json.Reader
import IslandSlots.Text.Identifier
import IslandSlots.Text.Search
import IslandSlots.Text.Utf8

/-!
# Tokens of a script

Names, literals and punctuators with the bytes they take, the blanks and comments between them
skipped. Where a `/` begins a regular expression and where a brace continues a template is not for
the scanner to know: the reader asks for those two by name.
-/

namespace IslandSlots.Script

/-- A module is not a script; the byte where it shows. -/
structure SyntaxError where
  /-- Bytes before the place. -/
  offset : Nat
  deriving DecidableEq, Repr

/-- What a token is. -/
inductive TokenKind where
  /-- A name or keyword, and whether it is spelled without escapes. -/
  | name (value : String) (plain : Bool)
  /-- A private name. -/
  | privateName
  /-- A number of any notation. -/
  | number
  /-- A string with its value. -/
  | string (value : String)
  /-- A piece of a template with its raw text, whether it ends the template, and whether all its
  escapes have a value. -/
  | template (raw : String) (last valued : Bool)
  /-- A regular expression with its flags. -/
  | regex
  /-- An operator or a bracket. -/
  | punctuator (text : String)
  /-- The end of the source. -/
  | finish
  deriving DecidableEq, Repr

/-- A token of a script. -/
structure Token where
  /-- What it is. -/
  kind : TokenKind
  /-- Bytes before the token. -/
  start : Nat
  /-- Bytes up to the end of the token. -/
  stop : Nat
  /-- Whether a line ends between the token before and this one. -/
  newline : Bool
  /-- The source from the token on. -/
  source : List Char
  /-- The source after the token. -/
  rest : List Char

/-- Whether a character ends a line. -/
def isLineEnd (c : Char) : Bool :=
  c == '\n' || c == '\r' || c.toNat == 0x2028 || c.toNat == 0x2029

/-- Whether a character is blank within a line. -/
def isSpace (c : Char) : Bool :=
  let n := c.toNat
  n == 0x20 || n == 9 || n == 11 || n == 12 || n == 0x85 || n == 0xA0 || n == 0x1680 ||
    (0x2000 ≤ n && n ≤ 0x200B) || n == 0x202F || n == 0x205F || n == 0x3000 || n == 0xFEFF

/-- Where the scanner stands between two tokens. -/
inductive Trivia where
  /-- Outside of comments. -/
  | blank
  /-- In a comment that ends with the line. -/
  | line
  /-- At the second character of the opening of a comment that begins at a byte. -/
  | opening (start : Nat)
  /-- In a comment that begins at a byte. -/
  | block (start : Nat)
  /-- At the second character of the end of a comment. -/
  | closing

/-- Skips blanks and comments: whether a line ends in them, where they end, and what follows. -/
def skipTrivia (mode : Trivia) (newline : Bool) (offset : Nat) :
    List Char → Except SyntaxError (Bool × Nat × List Char)
  | [] =>
    match mode with
    | .opening start => .error ⟨start⟩
    | .block start => .error ⟨start⟩
    | _ => .ok (newline, offset, [])
  | c :: rest =>
    let next := offset + c.utf8Size
    match mode with
    | .blank =>
      if isLineEnd c then skipTrivia .blank true next rest
      else if isSpace c then skipTrivia .blank newline next rest
      else if c = '/' && rest.head? = some '/' then skipTrivia .line newline next rest
      else if c = '/' && rest.head? = some '*' then skipTrivia (.opening offset) newline next rest
      else .ok (newline, offset, c :: rest)
    | .line =>
      if isLineEnd c then skipTrivia .blank true next rest else skipTrivia .line newline next rest
    | .opening start => skipTrivia (.block start) newline next rest
    | .block start =>
      if c = '*' && rest.head? = some '/' then skipTrivia .closing newline next rest
      else skipTrivia (.block start) (newline || isLineEnd c) next rest
    | .closing => skipTrivia .blank newline next rest

/-- The number that hexadecimal digits write. -/
def hexValue? (digits : List Char) : Option Nat :=
  digits.foldlM (fun value c => (Json.hexDigit? c).map (value * 16 + ·)) 0

/-- The code point of a Unicode escape after its backslash, and how many characters write it. -/
def unicodeEscape? : List Char → Option (Nat × Nat)
  | 'u' :: '\x7b' :: rest => do
    let digits := rest.takeWhile (· ≠ '\x7d')
    let value ← hexValue? digits
    if digits.isEmpty || digits.length == rest.length || 0x10FFFF < value then none
    else return (value, digits.length + 3)
  | 'u' :: a :: b :: c :: d :: _ => (hexValue? [a, b, c, d]).map (·, 5)
  | _ => none

/-- The longest name at the front of a text, with how many characters spell it. -/
def nameChars : List Char → List Char × Nat
  | [] => ([], 0)
  | c :: rest =>
    if c = '\\' then
      match unicodeEscape? rest with
      | some (code, size) =>
        if Text.isIdentifierPart (Char.ofNat code) then
          let (name, count) := nameChars (rest.drop size)
          (Char.ofNat code :: name, count + size + 1)
        else ([], 0)
      | none => ([], 0)
    else if Text.isIdentifierPart c then
      let (name, count) := nameChars rest
      (c :: name, count + 1)
    else ([], 0)
termination_by text => text.length
decreasing_by
  · simp only [List.length_drop, List.length_cons]; omega
  · simp

/-- Whether a name may begin with what a text begins with. -/
def beginsName : List Char → Bool
  | [] => false
  | c :: rest =>
    if c = '\\' then (unicodeEscape? rest).any fun (code, _) =>
      Text.isIdentifierStart (Char.ofNat code)
    else Text.isIdentifierStart c

/-- Whether a character is an octal digit. -/
def isOctal (c : Char) : Bool :=
  '0' ≤ c && c ≤ '7'

/-- The octal digits at the front of a text that write a code below 256, at most three. -/
def octalDigits (text : List Char) : List Char :=
  let digits := text.takeWhile isOctal
  if digits.head?.any (· ≤ '3') then digits.take 3 else digits.take 2

/-- The code points that an escape in a string stands for, given what follows the backslash, and
how many characters write it. A line that ends there goes on in the next. -/
def escape? : List Char → Option (List Nat × Nat)
  | [] => none
  | c :: rest =>
    if c = 'n' then some ([10], 1)
    else if c = 't' then some ([9], 1)
    else if c = 'r' then some ([13], 1)
    else if c = 'b' then some ([8], 1)
    else if c = 'f' then some ([12], 1)
    else if c = 'v' then some ([11], 1)
    else if c = 'x' then
      match rest with
      | a :: b :: _ => (hexValue? [a, b]).map ([·], 3)
      | _ => none
    else if c = 'u' then (unicodeEscape? (c :: rest)).map fun (code, size) => ([code], size)
    else if isOctal c then
      let digits := octalDigits (c :: rest)
      some ([digits.foldl (fun value d => value * 8 + (d.toNat - '0'.toNat)) 0], digits.length)
    else if c = '\r' && rest.head? = some '\n' then some ([], 2)
    else if isLineEnd c then some ([], 1)
    else some ([c.toNat], 1)

/-- The code points of a string up to its closing quote, and how many characters of the source
they take without the quote. -/
def stringChars (quote : Char) : List Char → Option (List Nat × Nat)
  | [] => none
  | c :: rest =>
    if c = quote then some ([], 0)
    else if c = '\n' || c = '\r' then none
    else if c = '\\' then
      match escape? rest with
      | some (codes, size) =>
        (stringChars quote (rest.drop size)).map fun (more, count) =>
          (codes ++ more, count + size + 1)
      | none => none
    else (stringChars quote rest).map fun (more, count) => (c.toNat :: more, count + 1)
termination_by text => text.length
decreasing_by
  · simp only [List.length_drop, List.length_cons]; omega
  · simp

/-- Code points with each pair of surrogates joined. -/
def joinSurrogates : List Nat → List Nat
  | high :: low :: rest =>
    if 0xD800 ≤ high && high < 0xDC00 && 0xDC00 ≤ low && low < 0xE000 then
      (0x10000 + (high - 0xD800) * 0x400 + (low - 0xDC00)) :: joinSurrogates rest
    else high :: joinSurrogates (low :: rest)
  | codes => codes

/-- Whether a code point is a surrogate. -/
def isSurrogate (code : Nat) : Bool :=
  0xD800 ≤ code && code < 0xE000

/-- The text of code points. When a surrogate stands alone among them, it and every replacement
character are written as a replacement character and four hexadecimal digits. -/
def codesText (codes : List Nat) : String :=
  let codes := joinSurrogates codes
  if codes.any isSurrogate then
    String.ofList (codes.flatMap fun code =>
      if isSurrogate code || code == 0xFFFD then Text.replacement :: Nat.toDigits 16 code
      else [Char.ofNat code])
  else String.ofList (codes.map Char.ofNat)

/-- A piece of a template. -/
structure TemplatePiece where
  /-- The source of the piece. -/
  raw : List Char
  /-- Whether it ends the template rather than begins a hole. -/
  last : Bool

/-- The piece of a template at the front of a text. -/
def templatePiece? : List Char → Option TemplatePiece
  | [] => none
  | '\\' :: c :: rest =>
    (templatePiece? rest).map fun piece => { piece with raw := '\\' :: c :: piece.raw }
  | c :: rest =>
    if c = '\x60' then some ⟨[], true⟩
    else if c = '$' && rest.head? = some '\x7b' then some ⟨[], false⟩
    else (templatePiece? rest).map fun piece => { piece with raw := c :: piece.raw }

/-- Whether every escape in the raw text of a template has a value. -/
def escapesValued : List Char → Bool
  | [] => true
  | '\\' :: rest =>
    match rest with
    | c :: next =>
      if c = 'x' || c = 'u' then (escape? rest).isSome && escapesValued next
      else if c = '0' then !(next.head?.any Char.isDigit) && escapesValued next
      else !c.isDigit && escapesValued next
    | [] => true
  | _ :: rest => escapesValued rest

/-- A raw text in which every end of a line is a line feed. -/
def normalizeLines : List Char → List Char
  | [] => []
  | '\r' :: '\n' :: rest => '\n' :: normalizeLines rest
  | c :: rest => (if c = '\r' then '\n' else c) :: normalizeLines rest

/-- How many characters the digits at the front of a text take, with `count` read before them. A
separator has to stand between two digits, and there is a digit at the front if one is needed.
Fails with the count at the place of a digit that is missing. -/
def digitRun (isDigit : Char → Bool) (needed : Bool) (count : Nat) : List Char → Except Nat Nat
  | [] => if needed then .error count else .ok count
  | c :: rest =>
    if isDigit c then digitRun isDigit false (count + 1) rest
    else if needed then .error count
    else if c = '_' then digitRun isDigit true (count + 1) rest
    else .ok count

/-- How many characters a number takes up to the end of its exponent, if it has one, given how
many come before it and the text from there. -/
def exponentEnd (count : Nat) : List Char → Except Nat Nat
  | e :: rest =>
    if e = 'e' || e = 'E' then
      match rest with
      | sign :: digits =>
        if sign = '+' || sign = '-' then digitRun Char.isDigit true (count + 2) digits
        else digitRun Char.isDigit true (count + 1) rest
      | [] => .error (count + 1)
    else .ok count
  | [] => .ok count

/-- How many characters the decimal number at the front of a text takes. -/
def decimalEnd (text : List Char) : Except Nat Nat := do
  let whole ← if text.head? = some '.' then .ok 0 else digitRun Char.isDigit true 0 text
  match text.drop whole with
  | 'n' :: _ => return whole + 1
  | '.' :: rest =>
    let fraction ←
      if rest.head?.any Char.isDigit then digitRun Char.isDigit true (whole + 1) rest
      else .ok (whole + 1)
    exponentEnd fraction (text.drop fraction)
  | rest => exponentEnd whole rest

/-- How many characters the number at the front of a text takes. Fails with the count of the
characters before a digit that is missing. -/
def numberEnd (text : List Char) : Except Nat Nat :=
  match text with
  | '0' :: x :: rest =>
    if x = 'x' || x = 'X' then radix (fun c => (Json.hexDigit? c).isSome) rest
    else if x = 'o' || x = 'O' then radix isOctal rest
    else if x = 'b' || x = 'B' then radix (fun c => c == '0' || c == '1') rest
    else decimalEnd text
  | _ => decimalEnd text
where
  /-- How many characters the number takes, given its digits. -/
  radix (isDigit : Char → Bool) (digits : List Char) : Except Nat Nat := do
    let count ← digitRun isDigit true 2 digits
    return if (text.drop count).head? = some 'n' then count + 1 else count

/-- How many characters the body of a regular expression takes up to its closing slash. -/
def regexCount (inClass : Bool) : List Char → Option Nat
  | [] => none
  | '\\' :: c :: rest => if isLineEnd c then none else (regexCount inClass rest).map (· + 2)
  | c :: rest =>
    if isLineEnd c then none
    else if c = '/' && !inClass then some 0
    else (regexCount (c = '[' || inClass && c ≠ ']') rest).map (· + 1)

/-- The flags of a regular expression. -/
def regexFlags : List Char :=
  ['d', 'g', 'i', 'm', 's', 'u', 'v', 'y']

/-- How many characters come up to the end of the first one that is no flag or a flag seen
before. -/
def faultyFlag? (seen : List Char) : List Char → Option Nat
  | [] => none
  | c :: rest =>
    if regexFlags.contains c && !seen.contains c then (faultyFlag? (c :: seen) rest).map (· + 1)
    else some 1

/-- Operators and brackets, those that begin with another one first. -/
def punctuators : List String :=
  [">>>=", "...", "===", "!==", "**=", "<<=", ">>=", ">>>", "&&=", "||=", "??=",
    "=>", "==", "!=", "<=", ">=", "&&", "||", "??", "?.", "++", "--", "+=", "-=", "*=", "/=", "%=",
    "&=", "|=", "^=", "<<", ">>", "**",
    "\x7b", "\x7d", "(", ")", "[", "]", ";", ",", "<", ">", "+", "-", "*", "/", "%", "&", "|", "^",
    "!", "~", "?", ":", "=", ".", "@", "#"]

/-- The punctuator at the front of a text. A question mark before a fraction stands alone. -/
def punctuator? (text : List Char) : Option String :=
  (punctuators.find? fun p => p.toList.isPrefixOf text).map fun p =>
    if p == "?." && (text.drop 2).head?.any Char.isDigit then "?" else p

namespace Token

/-- The token of a kind that takes `count` characters at the front of the source. -/
def taking (kind : TokenKind) (count start : Nat) (newline : Bool) (source : List Char) : Token where
  kind := kind
  start := start
  stop := start + Text.byteLength (source.take count)
  newline := newline
  source := source
  rest := source.drop count

/-- The token of a piece of a template whose text begins after one character. -/
def templateAt (start : Nat) (newline : Bool) (source : List Char) : Except SyntaxError Token :=
  match templatePiece? (source.drop 1) with
  | some piece =>
    let valued := escapesValued piece.raw
    let raw := if valued then normalizeLines piece.raw else piece.raw
    let count := piece.raw.length + if piece.last then 2 else 3
    .ok (taking (.template (String.ofList raw) piece.last valued) count start newline source)
  | none => .error ⟨start⟩

/-- The token of a name, private when it follows a `#`. -/
def nameAt (start : Nat) (newline : Bool) (source : List Char) : Token :=
  let (name, count) := nameChars source
  taking (.name (String.ofList name) (name.length == count)) count start newline source

/-- The token at the front of a source that has no blanks before it. -/
def at? (start : Nat) (newline : Bool) (source : List Char) : Except SyntaxError Token :=
  match source with
  | [] => .ok (taking .finish 0 start newline [])
  | c :: rest =>
    if beginsName source then .ok (nameAt start newline source)
    else if c.isDigit || c = '.' && rest.head?.any Char.isDigit then
      match numberEnd source with
      | .ok count =>
        let token := taking .number count start newline source
        if beginsName token.rest || token.rest.head?.any Char.isDigit then .error ⟨start⟩
        else .ok token
      | .error count => .error ⟨start + count⟩
    else if c = '"' || c = '\'' then
      match stringChars c rest with
      | some (codes, count) =>
        .ok (taking (.string (codesText codes)) (count + 2) start newline source)
      | none => .error ⟨start⟩
    else if c = '\x60' then templateAt start newline source
    else if c = '#' && beginsName rest then
      .ok (taking .privateName ((nameChars rest).2 + 1) start newline source)
    else
      match punctuator? source with
      | some text => .ok (taking (.punctuator text) text.length start newline source)
      | none => .error ⟨start⟩

/-- The first token of a source that has `offset` bytes before it. -/
def next (offset : Nat) (source : List Char) : Except SyntaxError Token := do
  let (newline, start, source) ← skipTrivia .blank false offset source
  at? start newline source

/-- The token after a token. -/
def following (token : Token) : Except SyntaxError Token :=
  next token.stop token.rest

/-- The regular expression that begins with a token, a slash, and not as an operator. -/
def asRegex (token : Token) : Except SyntaxError Token :=
  match regexCount false (token.source.drop 1) with
  | some count =>
    let flags := (token.source.drop (count + 2)).takeWhile Text.isIdentifierPart
    let found := taking .regex (count + 2 + flags.length) token.start token.newline token.source
    match faultyFlag? [] flags with
    | none => .ok found
    | some faulty =>
      .error ⟨token.start + Text.byteLength (token.source.take (count + 2 + faulty))⟩
  | none => .error ⟨token.start⟩

/-- The piece of a template that a token, a closing brace, continues. -/
def asTemplate (token : Token) : Except SyntaxError Token :=
  templateAt token.start token.newline token.source

/-- Whether a token is the given punctuator. -/
def isPunctuator (token : Token) (text : String) : Bool :=
  token.kind == .punctuator text

/-- Whether a token is the given word, spelled without escapes. -/
def isWord (token : Token) (word : String) : Bool :=
  token.kind == .name word true

/-- Whether a token ends the source. -/
def isFinish (token : Token) : Bool :=
  token.kind == .finish

end Token

end IslandSlots.Script
