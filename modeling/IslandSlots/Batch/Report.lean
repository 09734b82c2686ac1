import IslandSlots.Files.Access
import IslandSlots.Output.Layout
import IslandSlots.Render.Error
import IslandSlots.Slot.Annotated

/-!
# Reports of batches

What became of each input of a batch. The files of a report are listed in the order of the inputs.
-/

namespace IslandSlots

/-- What became of an input. -/
inductive Outcome where
  /-- Its output is written. -/
  | written (path : Path)
  /-- It needs no output. -/
  | unchanged
  deriving DecidableEq, Repr

/-- Why an input has no output. -/
inductive InputFailure where
  /-- It cannot be read. -/
  | unreadable (input : Path) (error : FileError)
  /-- It has no render tree. -/
  | notReconstructed (input : Path) (error : RenderError)
  /-- Its slots cannot be annotated. -/
  | notAnnotated (input : Path) (error : AnnotationError)
  /-- Another input has its place. -/
  | collision (place : Collision)
  /-- The directory of its output cannot be made. -/
  | noDirectory (directory : Path) (error : FileError)
  /-- Its output cannot be written. -/
  | notWritten (output : Path) (error : FileError)
  /-- The work on it was broken off. -/
  | panicked
  /-- The worker that took it has stopped without a word about it. -/
  | lost
  deriving Repr

/-- A reason in words. What is wrong with a template is said as the reason and as its cause. -/
def AnnotationError.chain : AnnotationError → String
  | .file error => error.message
  | .template error => error.message ++ ": " ++ error.message
  | .conflict error => error.message

/-- A failure in words, from the input to the cause. -/
def InputFailure.message : InputFailure → String
  | .unreadable input error => "failed to read " ++ input.text ++ ": " ++ error.message
  | .notReconstructed input error =>
    "failed to reconstruct " ++ input.text ++ ": " ++ error.message
  | .notAnnotated input error => "failed to annotate " ++ input.text ++ ": " ++ error.chain
  | .collision place => place.message
  | .noDirectory directory error =>
    "failed to create " ++ directory.text ++ ": " ++ error.message
  | .notWritten output error => "failed to write " ++ output.text ++ ": " ++ error.message
  | .panicked => "panicked while processing"
  | .lost => "worker stopped"

/-- How the work on an input ended. -/
abbrev InputResult := Except InputFailure Outcome

/-- What became of the inputs of a batch. -/
structure Report where
  /-- The outputs written. -/
  written : List Path
  /-- The inputs that need no output. -/
  unchanged : List Path
  /-- The inputs without an output, and why. -/
  failed : List (Path × InputFailure)

namespace Report

/-- The report on inputs with what became of each. -/
def ofResults (results : List (Path × InputResult)) : Report where
  written := results.filterMap fun (_, result) =>
    match result with
    | .ok (.written path) => some path
    | _ => none
  unchanged := results.filterMap fun (input, result) =>
    match result with
    | .ok .unchanged => some input
    | _ => none
  failed := results.filterMap fun (input, result) =>
    match result with
    | .error failure => some (input, failure)
    | _ => none

/-- Whether no input failed. -/
def isSuccess (report : Report) : Bool :=
  report.failed.isEmpty

/-- The report in a line. -/
def summary (report : Report) : String :=
  toString report.written.length ++ " written, " ++ toString report.unchanged.length ++
    " unchanged, " ++ toString report.failed.length ++ " failed"

end Report

end IslandSlots
