import IslandSlots.Files.Access

/-!
# Stores of files

Files and directories as a value. A place is the list of names on the way to it from the top;
every step of a path but the last leads through a directory, and so does a last one that is a dot.
-/

namespace IslandSlots

/-- What is at a place. -/
inductive FileEntry where
  /-- A directory. -/
  | directory
  /-- A file with its bytes. -/
  | file (bytes : List UInt8)
  deriving DecidableEq, Repr

/-- Files and directories. -/
structure FileStore where
  /-- The place where relative paths start. -/
  current : List String
  /-- What is at each place. -/
  entries : List (List String × FileEntry)
  deriving DecidableEq, Repr

namespace FileStore

/-- What is at a place. At the top there is always a directory. -/
def find? (store : FileStore) (place : List String) : Option FileEntry :=
  if place.isEmpty then some .directory else store.entries.lookup place

/-- Puts something at a place. -/
def insert (store : FileStore) (place : List String) (entry : FileEntry) : FileStore :=
  { store with
    entries := (place, entry) :: store.entries.filter fun (other, _) => other != place }

/-- Where a step leads from a directory. -/
def follow (place : List String) : PathPart → List String
  | .root => []
  | .here => place
  | .up => place.dropLast
  | .name text => place ++ [text]

/-- Where steps lead. Only the last place may be one where nothing is. -/
def walk (store : FileStore) : List String → List PathPart → Except FileError (List String)
  | place, [] => .ok place
  | place, step :: rest =>
    match store.find? place with
    | some .directory => walk store (follow place step) rest
    | some (.file _) => .error .notDirectory
    | none => .error .missing

/-- The place that a path leads to. -/
def resolve (store : FileStore) (steps : List PathPart) : Except FileError (List String) :=
  if steps.isEmpty then .error .missing else store.walk store.current steps

/-- Whether a path leads to a directory. -/
def isDirectory (store : FileStore) (steps : List PathPart) : Bool :=
  match store.resolve steps with
  | .ok place => store.find? place = some .directory
  | .error _ => false

/-- The bytes of a file. -/
def read (store : FileStore) (path : Path) : Except FileError (List UInt8) := do
  match store.find? (← store.resolve path.steps) with
  | some (.file bytes) => .ok bytes
  | some .directory => .error .isDirectory
  | none => .error .missing

/-- Makes one directory where nothing is. -/
def makeDirectory (store : FileStore) (steps : List PathPart) : Except FileError FileStore := do
  let place ← store.resolve steps
  match store.find? place with
  | none => .ok (store.insert place .directory)
  | some _ => .error .taken

/-- Makes one directory unless it is there. -/
def ensureDirectory (store : FileStore) (steps : List PathPart) : Except FileError FileStore :=
  match store.makeDirectory steps with
  | .ok made => .ok made
  | .error error => if store.isDirectory steps then .ok store else .error error

/-- Makes a directory, given by its steps from the last one back, and those around it that are
missing. -/
def makeBackwards (store : FileStore) : List PathPart → Except FileError Unit × FileStore
  | [] => (.ok (), store)
  | last :: outer =>
    let steps := (last :: outer).reverse
    let settle (store : FileStore) : Except FileError Unit × FileStore :=
      match store.ensureDirectory steps with
      | .ok made => (.ok (), made)
      | .error error => (.error error, store)
    match store.makeDirectory steps with
    | .error .missing =>
      match makeBackwards store outer with
      | (.ok (), store) => settle store
      | failed => failed
    | _ => settle store

/-- Writes a file into a directory that is there. -/
def write (store : FileStore) (path : Path) (bytes : List UInt8) :
    Except FileError FileStore := do
  let place ← store.resolve path.steps
  match store.find? place with
  | some .directory => .error .isDirectory
  | _ => .ok (store.insert place (.file bytes))

/-- The operations on a store that is passed along. -/
def access : FileAccess (StateM FileStore) where
  read path := do return (← get).read path
  makeDirectories path := fun store => store.makeBackwards path.parts.reverse
  write path text := fun store =>
    match store.write path (Text.bytes text) with
    | .ok written => (.ok (), written)
    | .error error => (.error error, store)

/-- The store with nothing but the directory where relative paths start, and those around it. -/
def empty (current : List String) : FileStore :=
  ⟨current, (List.range current.length).map fun count => (current.take (count + 1), .directory)⟩

/-- Adds a file and the directories around it. -/
def add (store : FileStore) (path : Path) (bytes : List UInt8) : FileStore :=
  let (_, store) := store.makeBackwards path.parentParts.reverse
  match store.write path bytes with
  | .ok written => written
  | .error _ => store

/-- The files below the place where relative paths start that another store does not have, with
their paths from there. -/
def changes (before after : FileStore) : List (String × List UInt8) :=
  after.entries.filterMap fun (place, entry) =>
    match entry with
    | .directory => none
    | .file bytes =>
      if after.current.isPrefixOf place && before.find? place != some (.file bytes) then
        some ((Path.ofNames (place.drop after.current.length)).text, bytes)
      else none

end FileStore

end IslandSlots
