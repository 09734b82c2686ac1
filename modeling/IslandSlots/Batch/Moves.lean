import IslandSlots.Batch.Run
import IslandSlots.Files.Store

/-!
# Batches move by move

The work on an input takes four moves: the input is read and goes through the job, its output asks
for a place, the directory of the output is made, and the output is written. A crew works on the
inputs of a batch together. The files and the layout of the outputs are shared, and between two
moves on one input there may be any number of moves on others.
-/

namespace IslandSlots

/-- How far the work on an input is. -/
inductive Stage where
  /-- Nothing is done. -/
  | waiting
  /-- The output is there, and asks for its place under a file name. -/
  | asking (content fileName : String)
  /-- The output has its place, and needs the directory. -/
  | placed (output : Path) (content : String)
  /-- The directory is there, and the output can be written. -/
  | ready (output : Path) (content : String)
  /-- Nothing is left to do. -/
  | done (result : InputResult)

namespace Stage

variable {m : Type → Type} [Monad m]

/-- What the job makes of an input. -/
def afterJob : Except InputFailure (Option (String × String)) → Stage
  | .error failure => .done (.error failure)
  | .ok none => .done (.ok .unchanged)
  | .ok (some (content, fileName)) => .asking content fileName

/-- The stage after a step, which is the last one if the step fails. -/
def after {α : Type} (step : BatchM m α) (next : α → Stage) : StateT Layout m Stage := do
  match ← step.run with
  | .ok result => return next result
  | .error failure => return .done (.error failure)

/-- The next move on an input. -/
def move (files : FileAccess m) (job : Job) (input : Path) : Stage → StateT Layout m Stage
  | .waiting =>
    after (Batch.attempt (.unreadable input) (files.readText input)) fun source =>
      afterJob (job input source)
  | .asking content fileName =>
    after (Batch.claim input fileName) fun output => .placed output content
  | .placed output content =>
    after (Batch.attempt (.noDirectory output.parent) (files.makeDirectories output.parent))
      fun _ => .ready output content
  | .ready output content =>
    after (Batch.attempt (.notWritten output) (files.write output content))
      fun _ => .done (.ok (.written output))
  | .done result => return .done result

/-- The next moves on an input, as many as are given. -/
def moves (files : FileAccess m) (job : Job) (input : Path) : Nat → Stage → StateT Layout m Stage
  | 0, stage => return stage
  | count + 1, stage => do moves files job input count (← stage.move files job input)

/-- What became of an input. -/
def result : Stage → InputResult
  | .done result => result
  | _ => .error .lost

end Stage

/-- The inputs of a batch that are worked on together. -/
structure Crew where
  /-- The files. -/
  store : FileStore
  /-- The layout of the outputs. -/
  layout : Layout
  /-- How far the work is on the input of each index. -/
  stages : Nat → Stage

namespace Crew

/-- A crew before its first move. -/
def start (store : FileStore) (directory : Path) (inputs : List Path) : Crew :=
  ⟨store, .ofInputs directory inputs, fun _ => .waiting⟩

/-- The next move on the input of an index. -/
def move (job : Job) (inputs : List Path) (crew : Crew) (index : Nat) : Crew :=
  match inputs[index]? with
  | none => crew
  | some input =>
    let ((stage, layout), store) :=
      (((crew.stages index).move FileStore.access job input).run crew.layout).run crew.store
    ⟨store, layout, fun other => if other = index then stage else crew.stages other⟩

/-- The moves of a schedule, one after the other, each given by the index of its input. -/
def run (job : Job) (inputs : List Path) (crew : Crew) (schedule : List Nat) : Crew :=
  schedule.foldl (move job inputs) crew

/-- The report on the inputs. -/
def report (inputs : List Path) (crew : Crew) : Report :=
  .ofResults (inputs.zipIdx.map fun (input, index) => (input, (crew.stages index).result))

end Crew

end IslandSlots
