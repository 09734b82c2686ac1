/-!
# Paths

A path is a text whose parts stand between slashes. Two paths name the same place when their parts
agree: empty parts count for nothing, and a dot counts only at the front of a relative path.
-/

namespace IslandSlots

/-- A path, as it is written. -/
structure Path where
  /-- The text. -/
  text : String
  deriving DecidableEq, Repr

/-- A step on the way that a path describes. -/
inductive PathPart where
  /-- To the top of all files. -/
  | root
  /-- Nowhere else. -/
  | here
  /-- To the directory around. -/
  | up
  /-- To what has the given name. -/
  | name (text : String)
  deriving DecidableEq, Repr

namespace PathPart

/-- The part that a text between slashes stands for. An empty text stands for nothing. -/
def ofText? (text : List Char) : Option PathPart :=
  match text with
  | [] => none
  | ['.'] => some .here
  | ['.', '.'] => some .up
  | _ => some (.name (String.ofList text))

/-- The name that a part gives. -/
def name? : PathPart → Option String
  | name text => some text
  | _ => none

end PathPart

namespace Path

/-- The texts between the slashes of a text. -/
def splitSlashes : List Char → List (List Char)
  | [] => [[]]
  | c :: rest =>
    if c = '/' then [] :: splitSlashes rest
    else match splitSlashes rest with
      | first :: more => (c :: first) :: more
      | [] => [[c]]

/-- Whether a path starts at the top of all files. -/
def isAbsolute (path : Path) : Bool :=
  path.text.toList.head? = some '/'

/-- The steps of a path one by one. A slash at the end asks for a directory, as a dot does. -/
def steps (path : Path) : List PathPart :=
  let between := splitSlashes path.text.toList
  (if path.isAbsolute then [.root] else []) ++ between.filterMap PathPart.ofText? ++
    (if between.getLast? = some [] && path.text != "" then [.here] else [])

/-- The parts by which paths are compared. -/
def parts (path : Path) : List PathPart :=
  let found := (splitSlashes path.text.toList).filterMap PathPart.ofText?
  let named := found.filter (· != .here)
  if path.isAbsolute then .root :: named
  else if found.head? = some .here then .here :: named
  else named

/-- Whether two paths have the same parts. -/
def agrees (left right : Path) : Bool :=
  left.parts = right.parts

/-- The parts of the directory that a path is in, which has none if the path has no such
directory. -/
def parentParts (path : Path) : List PathPart :=
  if path.parts.getLast? = some .root then [] else path.parts.dropLast

/-- The name at the end of a path. -/
def fileName? (path : Path) : Option String :=
  path.parts.getLast?.bind PathPart.name?

/-- The name at the end of a path up to its last point, unless nothing comes before the point. -/
def stem? (path : Path) : Option String :=
  path.fileName?.map fun name =>
    let before := ((name.toList.reverse.dropWhile (· != '.')).drop 1).reverse
    if before.isEmpty then name else String.ofList before

/-- A path after another: an absolute path stands alone, and one slash goes between. -/
def join (base path : Path) : Path :=
  if path.isAbsolute then path
  else if base.text.isEmpty || base.text.toList.getLast? = some '/' then ⟨base.text ++ path.text⟩
  else ⟨base.text ++ "/" ++ path.text⟩

/-- The path with the given names as its parts. -/
def ofNames (names : List String) : Path :=
  ⟨String.intercalate "/" names⟩

/-- Whether a text between slashes counts for nothing where it stands. -/
def isIdle (text : List Char) : Bool :=
  text.isEmpty || text == ['.']

/-- Texts between slashes without the last that counts and those around it that do not. -/
def dropLastCounted (between : List (List Char)) : List (List Char) :=
  (((between.reverse.dropWhile isIdle).drop 1).dropWhile isIdle).reverse

/-- The directory that a path is in, written as the path writes it. -/
def parent (path : Path) : Path :=
  let text := path.text.toList
  let anchor := if path.isAbsolute || path.parts.head? = some .here then 1 else 0
  if path.parts.length ≤ 1 then ⟨""⟩
  else
    let kept := dropLastCounted (splitSlashes (text.drop anchor))
    ⟨String.ofList (text.take anchor ++ List.intercalate ['/'] kept)⟩

end Path

end IslandSlots
