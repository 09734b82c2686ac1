import IslandSlots.Batch.Report
import IslandSlots.Json.Printer
import IslandSlots.Render.Branch
import IslandSlots.Render.Reconstruct
import IslandSlots.Render.Traversal

/-!
# Batches

A batch takes each input through one of two jobs, annotating the slots of a component file or
reconstructing the tree of a compiled module, and writes what comes of it under an output
directory. The inputs share the layout of the outputs; one that fails leaves the others alone.
-/

namespace IslandSlots

/-- How a render tree is written. -/
inductive TreeFormat where
  /-- As JSON. -/
  | json
  /-- As an outline. -/
  | outline
  deriving DecidableEq, Repr

namespace TreeFormat

/-- What comes after the name of an input in the name of its output. -/
def ending : TreeFormat → String
  | .json => ".tree.json"
  | .outline => ".tree.txt"

/-- The text of a tree. -/
def render : TreeFormat → Tree → String
  | .json, tree => tree.toJson.render
  | .outline, tree => tree.outline

end TreeFormat

/-- What is done with an input: the text of its output and the name of the output's file, or
nothing where there is nothing to write. -/
abbrev Job := Path → String → Except InputFailure (Option (String × String))

namespace Job

/-- Annotates the slots of a component file. Without a registry every file is an island. -/
def annotate (registry : Option Registry) (helperImport : String) : Job := fun input source => do
  let annotated :=
    match registry with
    | some registry => registry.annotate input.text source helperImport
    | none => IslandSlots.annotate source helperImport
  let code ← annotated.mapError (.notAnnotated input)
  return code.map fun code => (code, input.fileName?.getD input.text)

/-- Reconstructs the tree of a compiled module. -/
def tree (helpers : HelperNames) (format : TreeFormat) : Job := fun input source => do
  let tree ← (reconstruct source helpers).mapError (.notReconstructed input)
  return tree.map fun tree =>
    (format.render tree, (input.stem?.getD "component") ++ format.ending)

end Job

/-- A step of a batch: it may fail, and it passes the layout of the outputs along. -/
abbrev BatchM (m : Type → Type) := ExceptT InputFailure (StateT Layout m)

namespace Batch

variable {m : Type → Type} [Monad m]

/-- The result of an operation on files, with what a failure of it means. -/
def attempt {α : Type} (failure : FileError → InputFailure)
    (operation : m (Except FileError α)) : BatchM m α := do
  match ← operation with
  | .ok result => return result
  | .error error => throw (failure error)

/-- Gives out the place for an input's output. -/
def claim (input : Path) (fileName : String) : BatchM m Path := do
  match (← get).claim input fileName with
  | .ok (path, layout) =>
    set layout
    return path
  | .error collision => throw (.collision collision)

/-- Takes one input through a job. -/
def process (files : FileAccess m) (job : Job) (input : Path) : BatchM m Outcome := do
  let source ← attempt (.unreadable input) (files.readText input)
  match ← liftExcept (job input source) with
  | none => return .unchanged
  | some (content, fileName) =>
    let output ← claim input fileName
    attempt (.noDirectory output.parent) (files.makeDirectories output.parent)
    attempt (.notWritten output) (files.write output content)
    return .written output
where
  /-- A result that needs no files. -/
  liftExcept {α : Type} : Except InputFailure α → BatchM m α
    | .ok result => pure result
    | .error failure => throw failure

/-- Works on inputs one after the other. -/
def workAll (work : Path → m InputResult) : List Path → m (List (Path × InputResult))
  | [] => return []
  | input :: rest => do
    let result ← work input
    return (input, result) :: (← workAll work rest)

/-- Takes inputs through a job one after the other. -/
def processAll (files : FileAccess m) (job : Job) :
    List Path → StateT Layout m (List (Path × InputResult)) :=
  workAll fun input => (process files job input).run

/-- Runs a batch with its outputs under a directory. -/
def run (files : FileAccess m) (job : Job) (directory : Path) (inputs : List Path) : m Report := do
  let (results, _) ← (processAll files job inputs).run (Layout.ofInputs directory inputs)
  return Report.ofResults results

end Batch

end IslandSlots
