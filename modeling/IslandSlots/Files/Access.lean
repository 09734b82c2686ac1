import IslandSlots.Path.Basic
import IslandSlots.Text.Utf8

/-!
# Access to files

What a program does with files, as a record of operations of some monad: the files of a machine,
or a store of files that is a value.
-/

namespace IslandSlots

/-- Why something cannot be done with a file. -/
inductive FileError where
  /-- There is no such file, or no directory for it. -/
  | missing
  /-- There is a directory in place of a file. -/
  | isDirectory
  /-- There is a file in place of a directory. -/
  | notDirectory
  /-- There is something already. -/
  | taken
  /-- The bytes of a file are no text. -/
  | notText
  /-- Some other reason, in words. -/
  | other (reason : String)
  deriving DecidableEq, Repr

/-- A reason in words, with its number where it has one. -/
def FileError.message : FileError → String
  | .missing => "No such file or directory (os error 2)"
  | .isDirectory => "Is a directory (os error 21)"
  | .notDirectory => "Not a directory (os error 20)"
  | .taken => "File exists (os error 17)"
  | .notText => "stream did not contain valid UTF-8"
  | .other reason => reason

/-- The operations on files. -/
structure FileAccess (m : Type → Type) where
  /-- The bytes of a file. -/
  read : Path → m (Except FileError (List UInt8))
  /-- Makes a directory and those around it where they are missing. -/
  makeDirectories : Path → m (Except FileError Unit)
  /-- Writes a text as the whole of a file, which may be new. -/
  write : Path → String → m (Except FileError Unit)

/-- The text of a file. -/
def FileAccess.readText {m : Type → Type} [Monad m] (files : FileAccess m) (path : Path) :
    m (Except FileError String) := do
  return (← files.read path) >>= fun bytes =>
    match Text.decode? bytes with
    | some text => .ok text
    | none => .error .notText

end IslandSlots
