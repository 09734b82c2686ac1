/-!
# Markup chunks

A chunk of markup mixes literal text with holes, the places where an expression is filled in.
A hole is an atom of the chunk: it has no characters of its own to look into, and shows as its
expression between `${` and the closing brace.
-/

namespace IslandSlots

/-- A stretch of a chunk. -/
inductive Segment where
  /-- Literal text. -/
  | text (content : String)
  /-- The verbatim source of an expression that is filled in. -/
  | hole (expression : String)
  deriving DecidableEq, Repr

/-- A chunk of markup, in which no text is empty or follows another text. -/
structure Markup where
  /-- The stretches in order. -/
  segments : List Segment
  deriving DecidableEq, Repr

/-- The smallest part of a chunk. -/
inductive Atom where
  /-- A character of literal text. -/
  | char (c : Char)
  /-- A whole hole. -/
  | hole (expression : String)
  deriving DecidableEq, Repr

namespace Segment

/-- The atoms of a stretch. -/
def atoms : Segment → List Atom
  | .text content => content.toList.map .char
  | .hole expression => [.hole expression]

end Segment

namespace Atom

/-- How an atom shows in a text. -/
def chars : Atom → List Char
  | .char c => [c]
  | .hole expression => '$' :: '\x7b' :: expression.toList ++ ['\x7d']

/-- The text of a run of atoms. -/
def render (atoms : List Atom) : String :=
  String.ofList (atoms.flatMap chars)

/-- Whether an atom is a character of the given class. -/
def isChar (accepts : Char → Bool) : Atom → Bool
  | .char c => accepts c
  | .hole _ => false

end Atom

namespace Markup

/-- The chunk with nothing in it. -/
def empty : Markup := ⟨[]⟩

/-- Whether a chunk has nothing in it. -/
def isEmpty (markup : Markup) : Bool :=
  markup.segments.isEmpty

/-- Puts text after the stretches of a chunk, joined to a text that ends it. -/
def extend (text : String) : List Segment → List Segment
  | [] => [.text text]
  | [.text content] => [.text (content ++ text)]
  | segment :: rest => segment :: extend text rest

/-- Adds literal text at the end. -/
def pushText (markup : Markup) (text : String) : Markup :=
  if text.isEmpty then markup else ⟨extend text markup.segments⟩

/-- Adds a hole at the end. -/
def pushHole (markup : Markup) (expression : String) : Markup :=
  ⟨markup.segments ++ [.hole expression]⟩

/-- Adds a stretch at the end. -/
def push (markup : Markup) : Segment → Markup
  | .text content => markup.pushText content
  | .hole expression => markup.pushHole expression

/-- The chunk made of the given stretches in order. -/
def ofSegments (segments : List Segment) : Markup :=
  segments.foldl push empty

/-- The atoms of a chunk in order. -/
def atoms (markup : Markup) : List Atom :=
  markup.segments.flatMap Segment.atoms

/-- The chunk as it shows in a text. -/
def render (markup : Markup) : String :=
  Atom.render markup.atoms

end Markup

end IslandSlots
