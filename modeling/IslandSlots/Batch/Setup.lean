import IslandSlots.Batch.Run
import IslandSlots.Json.Reader

/-!
# Batches with their settings

A batch as it is asked for, with the files that hold its settings. These are read before the
first input, and without them nothing is done.
-/

namespace IslandSlots

/-- Why the settings of a batch cannot be had. -/
inductive SetupError where
  /-- Their file cannot be read. -/
  | unreadable (path : Path)
  /-- The file is no configuration. -/
  | invalidHelpers (path : Path)
  /-- The file is no registry. -/
  | invalidRegistry (path : Path)
  deriving DecidableEq, Repr

/-- The reason in words. -/
def SetupError.message : SetupError → String
  | .unreadable path => "failed to read " ++ path.text
  | .invalidHelpers path => "invalid config " ++ path.text
  | .invalidRegistry path => "invalid component registry " ++ path.text

/-- What a batch is to do with its inputs. -/
inductive BatchCommand where
  /-- Annotate slots, in the islands of a registry if one is given. -/
  | annotate (registry : Option Path) (helperImport : String)
  /-- Reconstruct trees, with the helper names of a configuration if one is given. -/
  | tree (helpers : Option Path) (format : TreeFormat)
  deriving DecidableEq, Repr

/-- A batch as it is asked for. -/
structure BatchRequest where
  /-- What is to be done. -/
  command : BatchCommand
  /-- Where the outputs go. -/
  directory : Path
  /-- The inputs in order. -/
  inputs : List Path
  deriving DecidableEq, Repr

namespace BatchRequest

variable {m : Type → Type} [Monad m]

/-- What a file of settings says. -/
def load {α : Type} (files : FileAccess m) (parse? : String → Option α)
    (invalid : Path → SetupError) (path : Path) : m (Except SetupError α) := do
  match ← files.readText path with
  | .error _ => return .error (.unreadable path)
  | .ok text => return ((parse? text).map Except.ok).getD (.error (invalid path))

/-- The helper names that the text of a configuration gives. -/
def parseHelpers? (text : String) : Option HelperNames :=
  Json.parse? text >>= HelperNames.ofJson?

/-- The job of a batch. -/
def job (files : FileAccess m) : BatchCommand → m (Except SetupError Job)
  | .annotate none helperImport => return .ok (.annotate none helperImport)
  | .annotate (some path) helperImport => do
    let registry ← load files Registry.parse? .invalidRegistry path
    return registry.map fun registry => .annotate (some registry) helperImport
  | .tree none format => return .ok (.tree .usual format)
  | .tree (some path) format => do
    let helpers ← load files parseHelpers? .invalidHelpers path
    return helpers.map fun helpers => .tree helpers format

/-- Runs a batch as it is asked for. -/
def run (files : FileAccess m) (request : BatchRequest) : m (Except SetupError Report) := do
  match ← job files request.command with
  | .error error => return .error error
  | .ok job => return .ok (← Batch.run files job request.directory request.inputs)

end BatchRequest

end IslandSlots
