import IslandSlots.Component.Section

/-!
# Component files

The blocks of a component file that count: the first template, the first style, and for scripts
with and without the attribute `setup` the last of each.
-/

namespace IslandSlots

/-- The blocks of a component file that count. -/
structure ComponentFile where
  /-- The first template block. -/
  template : Option Block
  /-- The last script block with the attribute `setup`. -/
  setupScript : Option Block
  /-- The last script block without it. -/
  script : Option Block
  /-- The first style block. -/
  style : Option Block
  deriving DecidableEq, Repr

/-- A text is no component file. The place is counted from one, in lines and in characters of the
line. -/
structure ComponentFileError where
  /-- The line. -/
  line : Nat
  /-- The character in the line. -/
  column : Nat
  deriving DecidableEq, Repr

/-- The failure in words. -/
def ComponentFileError.message (_error : ComponentFileError) : String :=
  "invalid single file component"

/-- The place after the given text. -/
def ComponentFileError.after (text : List Char) : ComponentFileError :=
  text.foldl
    (fun place c =>
      if c = '\n' then ⟨place.line + 1, 1⟩ else { place with column := place.column + 1 })
    ⟨1, 1⟩

/-- Whether a block has an attribute of the given name. -/
def Block.has (block : Block) (name : String) : Bool :=
  block.attributes.any fun attr => attr.name == name

namespace ComponentFile

/-- The file with no blocks. -/
def empty : ComponentFile := ⟨none, none, none, none⟩

/-- Takes in the next section of a file. -/
def add (file : ComponentFile) : Section → ComponentFile
  | .template block => { file with template := file.template.or (some block) }
  | .style block => { file with style := file.style.or (some block) }
  | .script block =>
    if block.has "setup" then { file with setupScript := some block }
    else { file with script := some block }
  | .other => file

/-- The blocks that count among the given sections. -/
def ofSections (sections : List Section) : ComponentFile :=
  sections.foldl add empty

/-- Reads a component file. -/
def read (source : String) : Except ComponentFileError ComponentFile :=
  let text := source.toList
  match Section.ofText text with
  | .ok sections => .ok (ofSections sections)
  | .error left => .error (.after (text.take (text.length - left)))

/-- Of the script blocks that count, the one that comes first in the file. -/
def firstScript? (file : ComponentFile) : Option Block :=
  match file.script, file.setupScript with
  | some script, some setup => some (if script.openEnd ≤ setup.openEnd then script else setup)
  | script, setup => script.or setup

end ComponentFile

end IslandSlots
