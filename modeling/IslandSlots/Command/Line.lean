import IslandSlots.Batch.Setup
import IslandSlots.Command.Arguments

/-!
# Command lines

What a command line asks for and what it comes to: a line on the output, and a code that says
whether the command failed. Arguments that ask for nothing are a failure of their own, and nothing
is done then.
-/

namespace IslandSlots

/-- A command line. -/
structure CommandLine where
  /-- Whether a failed input is an error of the command. -/
  strict : Bool
  /-- The batch to run. -/
  request : BatchRequest
  deriving DecidableEq, Repr

/-- What a command line comes to. -/
structure CommandResult where
  /-- Zero for success. -/
  code : Nat
  /-- What is printed. -/
  output : String
  /-- What is said besides, line by line. -/
  remarks : List String
  deriving DecidableEq, Repr

/-- The name of a command. -/
inductive CommandName where
  /-- Annotate slots. -/
  | annotate
  /-- Reconstruct trees. -/
  | tree
  deriving DecidableEq, Repr

namespace CommandName

/-- The command that a word names. -/
def ofText? (word : String) : Option CommandName :=
  if word = "annotate" then some .annotate else if word = "tree" then some .tree else none

/-- The options of a command. -/
def options : CommandName → List CommandOption
  | .annotate => CommandOption.everywhere ++ [.components, .outDir]
  | .tree => CommandOption.everywhere ++ [.config, .format, .outDir]

end CommandName

/-- The tree format that a word names. -/
def TreeFormat.ofText? (word : String) : Option TreeFormat :=
  if word = "json" then some .json else if word = "outline" then some .outline else none

/-- Whether a text is a number of workers: digits, which may follow a plus, for a number of at
most 64 bits. -/
def isCount (text : String) : Bool :=
  let digits := match text.toList with
    | '+' :: rest => rest
    | all => all
  !digits.isEmpty && digits.all Char.isDigit &&
    digits.foldl (fun value c => value * 10 + (c.toNat - '0'.toNat)) 0 < UInt64.size

namespace CommandOption

/-- Whether an option may have a value. A path is never empty. -/
def allows (option : CommandOption) (value : String) : Bool :=
  match option with
  | .verbose | .strict => true
  | .jobs => isCount value
  | .format => (TreeFormat.ofText? value).isSome
  | .components | .config | .outDir => !value.isEmpty

end CommandOption

/-- Whether no option is given twice and each has a value that it may have. -/
def GivenArguments.isSound (given : GivenArguments) : Bool :=
  decide (given.options.map Prod.fst).Nodup &&
    given.options.all fun (option, value) => option.allows value

namespace CommandLine

/-- Where outputs go unless an option says otherwise. -/
def usualDirectory : Path := ⟨"target/isle-out"⟩

/-- What a command with the given arguments is to do. -/
def command (name : CommandName) (given : GivenArguments) : BatchCommand :=
  match name with
  | .annotate => .annotate ((given.value? .components).map Path.mk) usualHelperImport
  | .tree =>
    .tree ((given.value? .config).map Path.mk)
      (((given.value? .format).bind TreeFormat.ofText?).getD .json)

/-- Reads a command line: options, the name of a command, and its options and inputs, of which
there is at least one. -/
def parse? (arguments : List String) : Option CommandLine := do
  let (before, name :: rest) ← GivenArguments.read? CommandOption.everywhere true none arguments
    | none
  let name ← CommandName.ofText? name
  let (given, _) ← GivenArguments.read? name.options false none rest
  if !before.isSound || !given.isSound || given.words.isEmpty || given.words.contains "" then none
  else some {
    strict := before.has .strict || given.has .strict
    request := {
      command := command name given
      directory := ((given.value? .outDir).map Path.mk).getD usualDirectory
      inputs := given.words.map Path.mk } }

/-- How the commands are called. -/
def usage : List String :=
  ["usage: isle annotate [--components FILE] [--out-dir DIR] FILE...",
    "       isle tree [--config FILE] [--format json|outline] [--out-dir DIR] FILE...",
    "options for both: [-v] [-j COUNT] [--strict]"]

/-- What is said about an input that failed. -/
def failureRemark (input : Path) (failure : InputFailure) : String :=
  input.text ++ ": could not process island render output: " ++ failure.message

/-- What a batch comes to. -/
def result (strict : Bool) : Except SetupError Report → CommandResult
  | .error error => ⟨1, "", [error.message]⟩
  | .ok report =>
    ⟨if strict && !report.isSuccess then 1 else 0, report.summary ++ "\n",
      report.failed.map fun (input, failure) => failureRemark input failure⟩

/-- Runs a command line. -/
def run {m : Type → Type} [Monad m] (files : FileAccess m) (arguments : List String) :
    m CommandResult := do
  match parse? arguments with
  | none => return ⟨2, "", usage⟩
  | some line => return result line.strict (← line.request.run files)

end CommandLine

end IslandSlots
