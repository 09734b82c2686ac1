import IslandSlots.Component.Body
import IslandSlots.Text.Utf8

/-!
# Top-level sections

A component file is a sequence of blocks and comments with white space around them. Template,
script and style blocks are kept with their attributes and content; blocks of any other name and
comments are passed over. A file that cannot be read this way fails at the farthest place that
some reading of it reaches: the end of the file when a template, script or style block, or a
template inside a template block, is never closed, and a place in the last opening tag otherwise.
-/

namespace IslandSlots

/-- A block of a component file. -/
structure Block where
  /-- The attributes of its opening tag. -/
  attributes : List BlockAttribute
  /-- The text between its tags. -/
  content : String
  /-- How many bytes of the file come before the content. -/
  openEnd : Nat
  deriving DecidableEq, Repr

/-- A part of a component file. -/
inductive Section where
  /-- A template block. -/
  | template (block : Block)
  /-- A script block. -/
  | script (block : Block)
  /-- A style block. -/
  | style (block : Block)
  /-- A comment, or a block of another name. -/
  | other
  deriving DecidableEq, Repr

namespace Section

open BlockTag BlockBody

/-- How the content of a block and what follows the block are found after its opening tag. -/
abbrev ContentReader := List Char → Option (List Char × List Char)

/-- A block of the given name at the front of a text, in a file of `size` bytes that the text
ends. -/
def block? (size : Nat) (name : List Char) (content? : ContentReader) (text : List Char) :
    Option (Block × List Char) := do
  let (attributes, inside) ← opening? name text
  let (content, rest) ← content? inside
  return (⟨attributes, String.ofList content, size - Text.byteLength inside⟩, rest)

/-- The name of a script block. -/
def scriptName : List Char :=
  ['s', 'c', 'r', 'i', 'p', 't']

/-- The name of a style block. -/
def styleName : List Char :=
  ['s', 't', 'y', 'l', 'e']

/-- A template block at the front of a text. -/
def template? (size : Nat) : List Char → Option (Block × List Char) :=
  block? size templateName BlockBody.template?

/-- A script block at the front of a text. -/
def script? (size : Nat) : List Char → Option (Block × List Char) :=
  block? size scriptName (upToClosing? scriptName)

/-- A style block at the front of a text. -/
def style? (size : Nat) : List Char → Option (Block × List Char) :=
  block? size styleName (upToClosing? styleName)

/-- Whether a character may stand in the name of a block. -/
def isNameChar (c : Char) : Bool :=
  c.isAlphanum || c == '-'

/-- The name of a block, which begins with a letter. -/
def leadingName (text : List Char) : List Char :=
  if text.head?.any Char.isAlpha then text.takeWhile isNameChar else []

/-- What follows a block of any name. -/
def custom? : List Char → Option (List Char)
  | '<' :: text => do
    let name := leadingName text
    if name.isEmpty then none
    let (_, inside) ← opening? name ('<' :: text)
    return (← upToClosing? name inside).2
  | _ => none

/-- The section at the front of a text, and what follows it. -/
def read? (size : Nat) (text : List Char) : Option (Section × List Char) :=
  match template? size text with
  | some (block, rest) => some (.template block, rest)
  | none =>
    match script? size text with
    | some (block, rest) => some (.script block, rest)
    | none =>
      match style? size text with
      | some (block, rest) => some (.style block, rest)
      | none => ((custom? text).or (comment? text)).map fun rest => (.other, rest)

/-- Whether a text begins with the opening tag of a block that is never closed. -/
def isUnclosed (name : List Char) (content? : ContentReader) (text : List Char) : Bool :=
  (opening? name text).any fun (_, inside) => (content? inside).isNone

/-- Whether a text begins with the opening tag of a template block, and a template inside it is
never closed. -/
def leavesOpen (text : List Char) : Bool :=
  (opening? templateName text).any fun (_, inside) => BlockBody.leavesOpen inside

/-- Whether a text begins with a template, script or style block that is never closed, or with a
template block in which a template is never closed. -/
def runsOut (text : List Char) : Bool :=
  isUnclosed templateName BlockBody.template? text || leavesOpen text ||
    isUnclosed scriptName (upToClosing? scriptName) text ||
    isUnclosed styleName (upToClosing? styleName) text

theorem length_of_block? {size : Nat} {name text rest : List Char} {content? : ContentReader}
    {block : Block} (shorter : ∀ {inside content rest : List Char},
      content? inside = some (content, rest) → rest.length < inside.length)
    (found : block? size name content? text = some (block, rest)) : rest.length < text.length := by
  simp only [block?, Option.pure_def, Option.bind_eq_bind, Option.bind_eq_some_iff,
    Option.some.injEq, Prod.mk.injEq, Prod.exists] at found
  obtain ⟨_, inside, opens, _, _, body, _, rfl⟩ := found
  exact Nat.lt_trans (shorter body) (length_of_opening? opens)

theorem length_of_custom? {text rest : List Char} (found : custom? text = some rest) :
    rest.length < text.length := by
  simp only [custom?] at found
  split at found
  · split at found
    · simp at found
    · simp only [Option.pure_def, Option.bind_eq_bind, Option.bind_eq_some_iff, Option.some.injEq,
        Prod.exists] at found
      obtain ⟨_, inside, opens, _, _, body, rfl⟩ := found
      exact Nat.lt_trans (length_of_upToClosing? body) (length_of_opening? opens)
  · simp at found

theorem length_of_read? {size : Nat} {text rest : List Char} {found : Section}
    (reads : read? size text = some (found, rest)) : rest.length < text.length := by
  simp only [read?] at reads
  split at reads
  · rename_i block
    simp only [Option.some.injEq, Prod.mk.injEq] at reads
    exact reads.2 ▸ length_of_block? length_of_template? block
  · split at reads
    · rename_i block
      simp only [Option.some.injEq, Prod.mk.injEq] at reads
      exact reads.2 ▸ length_of_block? length_of_upToClosing? block
    · split at reads
      · rename_i block
        simp only [Option.some.injEq, Prod.mk.injEq] at reads
        exact reads.2 ▸ length_of_block? length_of_upToClosing? block
      · simp only [Option.map_eq_some_iff, Option.or_eq_some_iff, Prod.mk.injEq] at reads
        obtain ⟨_, custom | ⟨_, comment⟩, _, rfl⟩ := reads
        · exact length_of_custom? custom
        · exact length_of_comment? comment

/-- The fewest characters left where the attributes of an opening tag stop being readable, or
`least` if no such place has fewer. -/
def fewestLeftInAttributes (least : Nat) (text : List Char) : Nat :=
  let named := skipSpace text
  let behind := named.dropWhile BlockTag.isNameChar
  let valueLeft := ((valuePlace? behind).map List.length).getD least
  match _found : attribute? text with
  | some (⟨_, some _⟩, rest) => fewestLeftInAttributes least rest
  | some (⟨_, none⟩, rest) => fewestLeftInAttributes (min least valueLeft) rest
  | none => if text.head?.any isSpace then min least named.length else least
termination_by text.length
decreasing_by all_goals exact length_of_attribute? _found

/-- How many characters are left at the farthest place that is reached in a text with no section
at its front and no block that runs out. -/
def fewestLeft : List Char → Nat
  | '<' :: text =>
    let name := leadingName text
    if name.isEmpty then text.length
    else fewestLeftInAttributes (text.length + 1) (text.drop name.length)
  | text => text.length

/-- The sections of a text that ends a file of `size` bytes, or the number of characters left at
the farthest place reached. `lost` says whether a block before the text has run out. -/
def all (size : Nat) (lost : Bool) (text : List Char) : Except Nat (List Section) :=
  match _found : read? size (skipSpace text) with
  | some (first, rest) => (first :: ·) <$> all size (lost || runsOut (skipSpace text)) rest
  | none =>
    if (skipSpace text).isEmpty then .ok []
    else if lost || runsOut (skipSpace text) then .error 0
    else .error (fewestLeft (skipSpace text))
termination_by text.length
decreasing_by exact Nat.lt_of_lt_of_le (length_of_read? _found) (length_skipSpace_le text)

/-- The sections of a file. -/
def ofText (text : List Char) : Except Nat (List Section) :=
  all (Text.byteLength text) false text

end Section

end IslandSlots
