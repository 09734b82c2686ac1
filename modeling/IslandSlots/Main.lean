import IslandSlots.Command.Line

/-!
# The command

Runs a command line on the files of the machine.
-/

namespace IslandSlots

/-- The reason of a failure on the machine. -/
def fileReason : IO.Error → FileError
  | .noFileOrDirectory .. => .missing
  | .alreadyExists .. => .taken
  | failure => .other (toString failure)

/-- Runs an operation on the machine. -/
def attemptOnMachine {α : Type} (operation : IO α) : IO (Except FileError α) := do
  try return .ok (← operation)
  catch failure => return .error (fileReason failure)

/-- The files of the machine. -/
def machineFiles : FileAccess IO where
  read path := attemptOnMachine do return (← IO.FS.readBinFile path.text).toList
  makeDirectories path :=
    if path.text.isEmpty then return .ok () else attemptOnMachine (IO.FS.createDirAll path.text)
  write path text := attemptOnMachine (IO.FS.writeFile path.text text)

end IslandSlots

/-- The program. -/
def main (arguments : List String) : IO UInt32 := do
  let result ← IslandSlots.CommandLine.run IslandSlots.machineFiles arguments
  for remark in result.remarks do IO.eprintln remark
  IO.print result.output
  return UInt32.ofNat result.code
