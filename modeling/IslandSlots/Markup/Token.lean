import IslandSlots.Markup.Basic
import IslandSlots.Markup.Tag
import IslandSlots.Text.Blank
import IslandSlots.Text.Search

/-!
# Tokens of a chunk

A chunk of markup as tags, texts and comments. Every token takes a run of atoms of the chunk and
the runs follow one another without a gap: a text is a maximal run without `<`, and each `<` has
to begin a tag or a comment. The content of a `script` or `style` element is one text up to the
first place where its end tag begins.
-/

namespace IslandSlots

/-- A token of a chunk of markup. -/
inductive Token where
  /-- A start tag. The attributes are the text of the tag between its name and its end. -/
  | opening (tag attrs : String) (selfClosing : Bool)
  /-- An end tag. -/
  | closing (tag : String)
  /-- Text between tags. -/
  | text (content : String)
  /-- The comment that begins a fragment. -/
  | fragmentStart
  /-- The comment that ends a fragment. -/
  | fragmentEnd
  /-- Any other comment. -/
  | comment (body : String)
  deriving DecidableEq, Repr

/-- What is wrong with a chunk that has no tokens. -/
inductive MarkupFault where
  /-- An end tag has something else than blanks before its `>`. -/
  | unterminatedEndTag (tag : String)
  /-- A `<` is followed by nothing that a tag or comment begins with. -/
  | strayBracket
  /-- The name of a start tag runs into a character that no tag may have there. -/
  | invalidName (tag : String)
  /-- A start tag has no `>`. -/
  | unterminatedTag (tag : String)
  /-- A comment has no end. -/
  | unterminatedComment
  /-- An element with raw text has no end tag. -/
  | unclosedRawText (tag : String)
  deriving DecidableEq, Repr

/-- A fault of a chunk and the atom where it shows. -/
structure MarkupError where
  /-- What is wrong. -/
  fault : MarkupFault
  /-- How many atoms come before the place. -/
  offset : Nat
  deriving DecidableEq, Repr

/-- A fault in words. -/
def MarkupFault.message : MarkupFault → String
  | .unterminatedEndTag tag => "closing tag `</" ++ tag ++ "` is not terminated"
  | .strayBracket => "`<` does not start a tag"
  | .invalidName tag => "invalid character in tag name `" ++ tag ++ "`"
  | .unterminatedTag tag => "tag `<" ++ tag ++ "` is not terminated"
  | .unterminatedComment => "comment is not terminated"
  | .unclosedRawText tag => "`<" ++ tag ++ ">` is never closed"

/-- A fault in words, with its place. -/
def MarkupError.message (error : MarkupError) : String :=
  error.fault.message ++ " (at character " ++ toString error.offset ++ ")"

namespace Token

/-- The tokens that begin at a `<`, and how many atoms they take after it. -/
structure Lexeme where
  /-- The tokens in order. -/
  tokens : List Token
  /-- How many atoms belong to them after the first one. -/
  size : Nat

/-- The atoms of a word. -/
def word (chars : List Char) : List Atom :=
  chars.map .char

/-- The longest name at the front of a run of atoms. -/
def leadingName : List Atom → List Char
  | .char c :: rest => if Tag.isNameChar c then c :: leadingName rest else []
  | _ => []

/-- Whether an atom is blank. -/
def isBlank : Atom → Bool :=
  Atom.isChar Text.isBlank

/-- The blanks at the front of a run of atoms, counted. -/
def blanks (atoms : List Atom) : Nat :=
  (atoms.takeWhile isBlank).length

/-- A run of atoms without blanks at its end. -/
def trimEnd (atoms : List Atom) : List Atom :=
  (atoms.reverse.dropWhile isBlank).reverse

/-- A run of atoms without blanks at its ends. -/
def trim (atoms : List Atom) : List Atom :=
  trimEnd (atoms.dropWhile isBlank)

/-- The inside of a start tag: the atoms up to the first `>` with an even number of double quotes
before it. -/
def tagInside (quotes : Bool) : List Atom → Option (List Atom)
  | [] => none
  | atom :: rest =>
    if atom = .char '>' && !quotes then some []
    else (tagInside (quotes != (atom = .char '"')) rest).map (atom :: ·)

/-- The attributes of a start tag, and whether a final `/` closes it. -/
def attributes (inside : List Atom) : String × Bool :=
  let trimmed := trim inside
  if trimmed.getLast? = some (.char '/') then (Atom.render (trimEnd trimmed.dropLast), true)
  else (Atom.render trimmed, false)

/-- The token of a comment with the given body. -/
def ofComment (body : String) : Token :=
  if body = "[" then .fragmentStart
  else if body = "]" then .fragmentEnd
  else .comment body

/-- A comment, given the atoms after its opening. -/
def readComment (offset : Nat) (atoms : List Atom) : Except MarkupError Lexeme :=
  match Text.splitFirst? (word ['-', '-', '>']) atoms with
  | some (body, _) => .ok ⟨[ofComment (Atom.render body)], body.length + 6⟩
  | none => .error ⟨.unterminatedComment, offset⟩

/-- An end tag, given the atoms after its `</`. -/
def readEndTag (offset : Nat) (atoms : List Atom) : Except MarkupError Lexeme :=
  let name := leadingName atoms
  let tag := String.ofList name
  let width := name.length + blanks (atoms.drop name.length)
  if (atoms.drop width).head? = some (.char '>') then .ok ⟨[.closing tag], width + 2⟩
  else .error ⟨.unterminatedEndTag tag, offset + 2 + width⟩

/-- The text of an element with raw text, given the atoms after its start tag. -/
def readRawText (tag : String) (offset : Nat) (atoms : List Atom) :
    Except MarkupError (List Atom) :=
  match Text.splitFirst? (word ('<' :: '/' :: tag.toList)) atoms with
  | some (body, _) => .ok body
  | none => .error ⟨.unclosedRawText tag, offset⟩

/-- Whether an atom may follow the name of a start tag. -/
def endsName : Atom → Bool
  | .hole _ => true
  | .char c => c == '/' || c == '>' || Text.isBlank c

/-- A start tag with the raw text that belongs to it, given the atoms after its `<`. -/
def readStartTag (offset : Nat) (atoms : List Atom) : Except MarkupError Lexeme := do
  let name := leadingName atoms
  let tag := String.ofList name
  let behind := atoms.drop name.length
  if !(behind.head?.any endsName) then
    throw ⟨.invalidName tag, offset + 1 + name.length⟩
  match tagInside false behind with
  | none => throw ⟨.unterminatedTag tag, offset⟩
  | some inside =>
    let (attrs, slash) := attributes inside
    let selfClosing := slash || Tag.isVoid tag
    let size := name.length + inside.length + 1
    let start := Token.opening tag attrs selfClosing
    if !selfClosing && Tag.isRawText tag then
      let body ← readRawText tag (offset + 1 + size) (atoms.drop size)
      if body.isEmpty then return ⟨[start], size⟩
      else return ⟨[start, .text (Atom.render body)], size + body.length⟩
    else return ⟨[start], size⟩

/-- Whether a run of atoms begins with a lower-case ASCII letter. -/
def beginsName (atoms : List Atom) : Bool :=
  atoms.head?.any (Atom.isChar Char.isLower)

/-- The tokens at a `<`, given the atoms after it. -/
def readTag (offset : Nat) (atoms : List Atom) : Except MarkupError Lexeme :=
  if (word ['!', '-', '-']).isPrefixOf atoms then readComment offset (atoms.drop 3)
  else if atoms.head? = some (.char '/') && beginsName (atoms.drop 1) then
    readEndTag offset (atoms.drop 1)
  else if beginsName atoms then readStartTag offset atoms
  else .error ⟨.strayBracket, offset⟩

/-- Whether an atom is part of a text rather than the start of a tag. -/
def isTextAtom (atom : Atom) : Bool :=
  atom != .char '<'

/-- The tokens of a run of atoms that has `offset` atoms before it. -/
def ofAtoms (offset : Nat) : List Atom → Except MarkupError (List Token)
  | [] => .ok []
  | atom :: rest =>
    if isTextAtom atom then do
      let run := rest.takeWhile isTextAtom
      let more ← ofAtoms (offset + 1 + run.length) (rest.dropWhile isTextAtom)
      return .text (Atom.render (atom :: run)) :: more
    else do
      let lexeme ← readTag offset rest
      let more ← ofAtoms (offset + 1 + lexeme.size) (rest.drop lexeme.size)
      return lexeme.tokens ++ more
termination_by atoms => atoms.length
decreasing_by
  · have shorter := (List.dropWhile_sublist isTextAtom (l := rest)).length_le
    simp only [List.length_cons]
    omega
  · simp only [List.length_drop, List.length_cons]
    omega

end Token

/-- The tokens of a chunk of markup. -/
def Markup.tokens (markup : Markup) : Except MarkupError (List Token) :=
  Token.ofAtoms 0 markup.atoms

end IslandSlots
