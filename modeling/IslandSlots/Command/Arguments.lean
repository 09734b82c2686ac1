import IslandSlots.Text.Search

/-!
# Arguments of a command line

The options that a command takes and how arguments give them. A long option follows two dashes and
has its value after an equals sign or in the next argument; short options follow one dash, one
after the other, and the value of one ends such a run. After two dashes alone every argument is a
word.
-/

namespace IslandSlots

/-- An option. -/
inductive CommandOption where
  /-- Log more. -/
  | verbose
  /-- How many workers there are. -/
  | jobs
  /-- A failed input is an error of the command. -/
  | strict
  /-- The file of the component registry. -/
  | components
  /-- The file of the helper names. -/
  | config
  /-- How trees are written. -/
  | format
  /-- The output directory. -/
  | outDir
  deriving DecidableEq, Repr

namespace CommandOption

/-- The long name of an option. -/
def longName : CommandOption → String
  | .verbose => "verbose"
  | .jobs => "jobs"
  | .strict => "strict"
  | .components => "components"
  | .config => "config"
  | .format => "format"
  | .outDir => "out-dir"

/-- The letter of an option, if it has one. -/
def letter? : CommandOption → Option Char
  | .verbose => some 'v'
  | .jobs => some 'j'
  | _ => none

/-- Whether an option has a value. -/
def takesValue : CommandOption → Bool
  | .verbose | .strict => false
  | _ => true

/-- The options that go with every command, before or after its name. -/
def everywhere : List CommandOption :=
  [.verbose, .jobs, .strict]

end CommandOption

/-- What arguments give. -/
structure GivenArguments where
  /-- The options in order with their values, which are empty where an option takes none. -/
  options : List (CommandOption × String)
  /-- The words in order. -/
  words : List String
  deriving DecidableEq, Repr

namespace GivenArguments

/-- More options in front. -/
def withOptions (options : List (CommandOption × String)) (given : GivenArguments) :
    GivenArguments :=
  { given with options := options ++ given.options }

/-- One more word in front. -/
def withWord (word : String) (given : GivenArguments) : GivenArguments :=
  { given with words := word :: given.words }

/-- The value of an option. -/
def value? (given : GivenArguments) (option : CommandOption) : Option String :=
  given.options.lookup option

/-- Whether an option is given. -/
def has (given : GivenArguments) (option : CommandOption) : Bool :=
  (given.value? option).isSome

end GivenArguments

/-- How one argument reads. -/
inductive Argument where
  /-- Two dashes alone. -/
  | separator
  /-- A long option, perhaps with a value. -/
  | long (name : String) (value : Option String)
  /-- A run of short options. -/
  | short (letters : List Char)
  /-- A word. -/
  | word (text : String)
  deriving DecidableEq, Repr

namespace Argument

/-- Reads an argument. A dash alone is a word. -/
def ofText (text : String) : Argument :=
  match text.toList with
  | ['-', '-'] => .separator
  | '-' :: '-' :: rest =>
    match Text.splitFirst? ['='] rest with
    | some (name, value) => .long (String.ofList name) (some (String.ofList value))
    | none => .long (String.ofList rest) none
  | '-' :: c :: rest => .short (c :: rest)
  | _ => .word text

/-- Whether an argument can be the value of an option before it. -/
def isWord (text : String) : Bool :=
  match ofText text with
  | .word _ => true
  | _ => false

end Argument

namespace GivenArguments

/-- Options with their values, and the option whose value is still to come. -/
abbrev Pending := List (CommandOption × String) × Option CommandOption

/-- What a run of short options gives. -/
def ofShort? (allowed : List CommandOption) : List Char → Option Pending
  | [] => some ([], none)
  | c :: rest => do
    let option ← allowed.find? fun option => option.letter? == some c
    if option.takesValue then
      match rest with
      | [] => some ([], some option)
      | '=' :: value => some ([(option, String.ofList value)], none)
      | value => some ([(option, String.ofList value)], none)
    else
      let (more, pending) ← ofShort? allowed rest
      some ((option, "") :: more, pending)

/-- What a long option gives. -/
def ofLong? (allowed : List CommandOption) (name : String) (value : Option String) :
    Option Pending := do
  let option ← allowed.find? fun option => option.longName == name
  match value, option.takesValue with
  | some value, true => some ([(option, value)], none)
  | none, true => some ([], some option)
  | none, false => some ([(option, "")], none)
  | some _, false => none

/-- Reads arguments to their end or, if `stops`, to the first word, and gives what is left to
read. The option before them may still need its value. Fails where an option is not allowed or
has no value. -/
def read? (allowed : List CommandOption) (stops : Bool) :
    Option CommandOption → List String → Option (GivenArguments × List String)
  | none, [] => some (⟨[], []⟩, [])
  | some _, [] => none
  | some option, value :: rest => do
    if !Argument.isWord value then none
    let (given, left) ← read? allowed stops none rest
    return (given.withOptions [(option, value)], left)
  | none, argument :: rest =>
    match Argument.ofText argument with
    | .separator => if stops then none else some (⟨[], rest⟩, [])
    | .word word => do
      if stops then return (⟨[], []⟩, argument :: rest)
      let (given, left) ← read? allowed stops none rest
      return (given.withWord word, left)
    | .short letters => do
      let (options, pending) ← ofShort? allowed letters
      let (given, left) ← read? allowed stops pending rest
      return (given.withOptions options, left)
    | .long name value => do
      let (options, pending) ← ofLong? allowed name value
      let (given, left) ← read? allowed stops pending rest
      return (given.withOptions options, left)

end GivenArguments

end IslandSlots
