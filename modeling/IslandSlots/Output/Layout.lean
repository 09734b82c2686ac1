import IslandSlots.Path.Basic

/-!
# Output layout

Where the outputs of several inputs go. The directory of each input, taken from the deepest
directory that all inputs share, is laid out again under one output directory; only names are kept
of it, so no output leaves that directory. A place is given out once.
-/

namespace IslandSlots

/-- The layout of outputs. -/
structure Layout where
  /-- The output directory. -/
  directory : Path
  /-- The parts of the directory that all inputs share. -/
  base : List PathPart
  /-- The parts of the places given out, newest first. -/
  claimed : List (List PathPart)
  deriving DecidableEq, Repr

/-- A place that another input has already. -/
structure Collision where
  /-- The place. -/
  path : Path
  deriving DecidableEq, Repr

/-- The collision in words. -/
def Collision.message (collision : Collision) : String :=
  "output " ++ collision.path.text ++ " is also written by another input"

namespace Layout

/-- The longest common beginning of two lists. -/
def commonStart : List PathPart → List PathPart → List PathPart
  | left :: lefts, right :: rights => if left = right then left :: commonStart lefts rights else []
  | _, _ => []

/-- The parts of the deepest directory that all the inputs share. -/
def commonBase : List Path → List PathPart
  | [] => []
  | first :: rest =>
    rest.foldl (fun base input => commonStart base input.parentParts) first.parentParts

/-- The layout for the given inputs under a directory. -/
def ofInputs (directory : Path) (inputs : List Path) : Layout :=
  ⟨directory, commonBase inputs, []⟩

/-- Parts without those of the base, if they begin with it. -/
def withoutBase (base parts : List PathPart) : List PathPart :=
  if base.isPrefixOf parts then parts.drop base.length else parts

/-- The names on the way from the base to the directory of an input. -/
def relativeNames (layout : Layout) (input : Path) : List String :=
  (withoutBase layout.base input.parentParts).filterMap PathPart.name?

/-- Where the output of an input goes under a file name. -/
def pathFor (layout : Layout) (input : Path) (fileName : String) : Path :=
  (layout.directory.join (.ofNames (layout.relativeNames input))).join ⟨fileName⟩

/-- Gives out the place for an input's output under a file name. -/
def claim (layout : Layout) (input : Path) (fileName : String) : Except Collision (Path × Layout) :=
  let path := layout.pathFor input fileName
  if layout.claimed.contains path.parts then .error ⟨path⟩
  else .ok (path, { layout with claimed := path.parts :: layout.claimed })

end Layout

end IslandSlots
