import IslandSlots.Batch.Moves
import IslandSlots.Proofs.Files.Directories

/-!
# Moves on a store

Four moves in a row are the whole work on an input. On a store of files each of them is a few
operations on the store and on the layout, and an input that is worked on alone goes through the
same ones.
-/

namespace IslandSlots

namespace Stage

variable {m : Type → Type} [Monad m] [LawfulMonad m] (files : FileAccess m) (job : Job)
  (input : Path)

theorem moves_done (count : Nat) (result : InputResult) :
    moves files job input count (.done result) = pure (.done result) := by
  induction count with
  | zero => rfl
  | succ count induction => rw [moves, move, pure_bind, induction]

/-- Moves after a step are the step and what follows it, if the moves from the next stage on are
what follows. -/
theorem moves_after {α : Type} {count : Nat} (step : BatchM m α) {next : α → Stage}
    {rest : α → BatchM m Outcome}
    (follows : ∀ result, moves files job input count (next result) = done <$> (rest result).run) :
    after step next >>= moves files job input count = done <$> (step >>= rest).run := by
  rw [after, ExceptT.run_bind, bind_assoc, map_bind]
  refine bind_congr fun outcome => ?_
  cases outcome with
  | ok result => rw [pure_bind, follows]
  | error failure => rw [pure_bind, moves_done, map_pure]

/-- Four moves in a row are the work on an input. -/
theorem moves_waiting : moves files job input 4 .waiting =
    done <$> (Batch.process files job input).run := by
  rw [moves, move, Batch.process]
  refine moves_after files job input _ fun source => ?_
  match job input source with
  | .error failure =>
      refine (moves_done ..).trans ?_
      simp [Batch.process.liftExcept]
  | .ok none =>
      refine (moves_done ..).trans ?_
      simp [Batch.process.liftExcept]
  | .ok (some (content, fileName)) =>
      rw [Batch.process.liftExcept, pure_bind]
      refine moves_after files job input _ fun output => ?_
      refine moves_after files job input _ fun _ => ?_
      refine moves_after files job input _ fun _ => ?_
      exact (moves_done ..).trans (map_pure ..).symm

end Stage

/-! ## Moves on a store of files -/

/-- The text of a file. -/
def FileStore.text (store : FileStore) (path : Path) : Except FileError String :=
  store.read path >>= fun bytes =>
    match Text.decode? bytes with
    | some text => .ok text
    | none => .error .notText

namespace Batch

/-- What the job makes of an input: the output and the name of its file, or nothing. -/
def plan (job : Job) (store : FileStore) (input : Path) :
    Except InputFailure (Option (String × String)) :=
  match store.text input with
  | .ok source => job input source
  | .error error => .error (.unreadable input error)

/-- What becomes of an input, and of the files, if no other input is worked on. -/
def alone (job : Job) (layout : Layout) (store : FileStore) (input : Path) :
    InputResult × FileStore :=
  let ((result, _), after) := ((process FileStore.access job input).run.run layout).run store
  (result, after)

end Batch

namespace Stage

variable {job : Job} {input : Path} {layout next : Layout} {store left : FileStore}

/-- The next move on an input, with the layout and the files that it finds and leaves. -/
def step (job : Job) (input : Path) (stage : Stage) (layout : Layout) (store : FileStore) :
    (Stage × Layout) × FileStore :=
  ((stage.move FileStore.access job input).run layout).run store

/-- The stage after a result, or after a failure. -/
def afterOutcome {α : Type} (following : α → Stage) : Except InputFailure α → Stage
  | .ok result => following result
  | .error failure => .done (.error failure)

theorem run_after {α : Type} {taken : BatchM (StateM FileStore) α} {outcome : Except InputFailure α}
    (ran : (taken.run.run layout).run store = ((outcome, next), left)) (following : α → Stage) :
    ((after taken following).run layout).run store =
      ((afterOutcome following outcome, next), left) := by
  simp only [after, StateT.run_bind, ran]
  cases outcome <;> rfl

theorem run_attempt {α : Type} (failure : FileError → InputFailure)
    {operation : StateM FileStore (Except FileError α)} {outcome : Except FileError α}
    (ran : operation.run store = (outcome, left)) :
    ((Batch.attempt failure operation).run.run layout).run store =
      ((outcome.mapError failure, layout), left) := by
  have lifted : ((liftM operation : BatchM (StateM FileStore) _).run.run layout).run store =
      ((.ok outcome, layout), left) :=
    congrArg (fun ran : Except FileError α × FileStore => ((Except.ok ran.1, layout), ran.2)) ran
  rw [Batch.attempt, ExceptT.run_bind, StateT.run_bind, StateT.run_bind]
  simp only [lifted]
  cases outcome <;> rfl

/-- The first move reads the input and changes nothing. -/
theorem step_waiting (job : Job) (input : Path) (layout : Layout) (store : FileStore) :
    step job input .waiting layout store =
      ((afterJob (Batch.plan job store input), layout), store) := by
  have ran : (FileStore.access.readText input).run store = (store.text input, store) := rfl
  rw [step, move, run_after (run_attempt _ ran), Batch.plan]
  cases store.text input <;> rfl

theorem got : ((get : BatchM (StateM FileStore) Layout).run.run layout).run store =
    pure ((.ok layout, layout), store) :=
  rfl

/-- The second move asks for a place. -/
theorem step_claimed (job : Job) (content : String) (store : FileStore) {fileName : String}
    {output : Path} (claimed : layout.claim input fileName = .ok (output, next)) :
    step job input (.asking content fileName) layout store =
      ((.placed output content, next), store) := by
  have ran : ((Batch.claim input fileName : BatchM (StateM FileStore) Path).run.run layout).run
      store = ((.ok output, next), store) := by
    rw [Batch.claim, ExceptT.run_bind, StateT.run_bind, StateT.run_bind]
    simp only [got, pure_bind, claimed]
    rfl
  rw [step, move, run_after ran]
  rfl

theorem step_refused (job : Job) (content : String) (store : FileStore) {fileName : String}
    {collision : Collision} (refused : layout.claim input fileName = .error collision) :
    step job input (.asking content fileName) layout store =
      ((.done (.error (.collision collision)), layout), store) := by
  have ran : ((Batch.claim input fileName : BatchM (StateM FileStore) Path).run.run layout).run
      store = ((.error (.collision collision), layout), store) := by
    rw [Batch.claim, ExceptT.run_bind, StateT.run_bind, StateT.run_bind]
    simp only [got, pure_bind, refused]
    rfl
  rw [step, move, run_after ran]
  rfl

/-- The third move makes the directory. -/
theorem step_made (job : Job) (input : Path) (layout : Layout) (content : String) {output : Path}
    (made : store.makeBackwards output.parent.parts.reverse = (.ok (), left)) :
    step job input (.placed output content) layout store =
      ((.ready output content, layout), left) := by
  have ran : (FileStore.access.makeDirectories output.parent).run store = (.ok (), left) := made
  rw [step, move, run_after (run_attempt _ ran)]
  rfl

theorem step_notMade (job : Job) (input : Path) (layout : Layout) (content : String)
    {output : Path} {error : FileError}
    (failed : store.makeBackwards output.parent.parts.reverse = (.error error, left)) :
    step job input (.placed output content) layout store =
      ((.done (.error (.noDirectory output.parent error)), layout), left) := by
  have ran : (FileStore.access.makeDirectories output.parent).run store = (.error error, left) :=
    failed
  rw [step, move, run_after (run_attempt _ ran)]
  rfl

/-- The fourth move writes the output. -/
theorem step_written (job : Job) (input : Path) (layout : Layout) {content : String}
    {output : Path} (written : store.write output (Text.bytes content) = .ok left) :
    step job input (.ready output content) layout store =
      ((.done (.ok (.written output)), layout), left) := by
  have ran : (FileStore.access.write output content).run store = (.ok (), left) := by
    simp only [FileStore.access, StateT.run, written]
  rw [step, move, run_after (run_attempt _ ran)]
  rfl

theorem step_notWritten (job : Job) (input : Path) (layout : Layout) {content : String}
    {output : Path} {error : FileError}
    (failed : store.write output (Text.bytes content) = .error error) :
    step job input (.ready output content) layout store =
      ((.done (.error (.notWritten output error)), layout), store) := by
  have ran : (FileStore.access.write output content).run store = (.error error, store) := by
    simp only [FileStore.access, StateT.run, failed]
  rw [step, move, run_after (run_attempt _ ran)]
  rfl

theorem step_done (job : Job) (input : Path) (layout : Layout) (store : FileStore)
    (result : InputResult) :
    step job input (.done result) layout store = ((.done result, layout), store) :=
  rfl

/-- What becomes of an input that is worked on alone is what four moves in a row make of it. -/
theorem alone_eq_moves : Batch.alone job layout store input =
    ((((moves FileStore.access job input 4 .waiting).run layout).run store).1.1.result,
      (((moves FileStore.access job input 4 .waiting).run layout).run store).2) := by
  rw [moves_waiting, StateT.run_map, StateT.run_map]
  rfl

theorem moves_step {stage following : Stage} {count : Nat}
    (stepped : step job input stage layout store = ((following, next), left)) :
    ((moves FileStore.access job input (count + 1) stage).run layout).run store =
      ((moves FileStore.access job input count following).run next).run left := by
  rw [moves, StateT.run_bind, StateT.run_bind]
  rw [step] at stepped
  rw [stepped]
  rfl

end Stage

/-! ## Moves of a crew -/

namespace Crew

variable {job : Job} {inputs : List Path} {crew : Crew} {index : Nat} {input : Path}
  {stage : Stage} {next : Layout} {store : FileStore}

/-- A crew with another stage of one input, and with the layout and the files of after a move. -/
def put (crew : Crew) (index : Nat) (stage : Stage) (layout : Layout) (store : FileStore) : Crew :=
  ⟨store, layout, fun other => if other = index then stage else crew.stages other⟩

theorem put_stages_self : (crew.put index stage next store).stages index = stage :=
  if_pos rfl

theorem put_stages_ne {other : Nat} (different : other ≠ index) :
    (crew.put index stage next store).stages other = crew.stages other :=
  if_neg different

theorem move_eq_put (found : inputs[index]? = some input) (stage_eq : crew.stages index = stage)
    {following : Stage}
    (stepped : Stage.step job input stage crew.layout crew.store = ((following, next), store)) :
    crew.move job inputs index = crew.put index following next store := by
  rw [move, found]
  rw [Stage.step, ← stage_eq] at stepped
  simp only [stepped]
  rfl

/-- The inputs of the given indices, each with all its moves before the next one. -/
def oneByOne (order : List Nat) : List Nat :=
  order.flatMap (List.replicate 4)

theorem put_put (crew : Crew) (index : Nat) (stage other : Stage) (layout next : Layout)
    (store later : FileStore) :
    (crew.put index stage layout store).put index other next later =
      crew.put index other next later := by
  rw [put, put, put, mk.injEq]
  refine ⟨rfl, rfl, funext fun place => ?_⟩
  dsimp only
  split <;> rfl

theorem put_self (crew : Crew) (index : Nat) :
    crew.put index (crew.stages index) crew.layout crew.store = crew := by
  have same : (fun other => if other = index then crew.stages index else crew.stages other) =
      crew.stages := by
    funext other
    split <;> simp_all
  rw [put, same]

/-- Moves in a row on one input. -/
theorem run_replicate (found : inputs[index]? = some input) (count : Nat) (crew : Crew) :
    crew.run job inputs (List.replicate count index) =
      crew.put index
        (((Stage.moves FileStore.access job input count (crew.stages index)).run crew.layout).run
          crew.store).1.1
        (((Stage.moves FileStore.access job input count (crew.stages index)).run crew.layout).run
          crew.store).1.2
        (((Stage.moves FileStore.access job input count (crew.stages index)).run crew.layout).run
          crew.store).2 := by
  induction count generalizing crew with
  | zero => exact (put_self crew index).symm
  | succ count induction =>
      obtain ⟨⟨⟨stage, next⟩, store⟩, stepped⟩ :
          ∃ result, Stage.step job input (crew.stages index) crew.layout crew.store = result :=
        ⟨_, rfl⟩
      have first : crew.run job inputs (List.replicate (count + 1) index) =
          (crew.put index stage next store).run job inputs (List.replicate count index) := by
        rw [List.replicate_succ, run, List.foldl_cons, move_eq_put found rfl stepped, run]
      rw [first, induction, put_stages_self, put_put, Stage.moves_step stepped]
      rfl

/-- The four moves on an input in a row are the work on it. -/
theorem run_four (found : inputs[index]? = some input) (waiting : crew.stages index = .waiting)
    {result : InputResult}
    (ran : ((Batch.process FileStore.access job input).run.run crew.layout).run crew.store =
      ((result, next), store)) :
    crew.run job inputs (List.replicate 4 index) = crew.put index (.done result) next store := by
  have moved : ((Stage.moves FileStore.access job input 4 .waiting).run crew.layout).run
      crew.store = ((.done result, next), store) := by
    rw [Stage.moves_waiting, StateT.run_map, StateT.run_map]
    exact congrArg (fun ran : (InputResult × Layout) × FileStore =>
      ((Stage.done ran.1.1, ran.1.2), ran.2)) ran
  rw [run_replicate found, waiting, moved]

theorem run_append (crew : Crew) (front back : List Nat) :
    crew.run job inputs (front ++ back) = (crew.run job inputs front).run job inputs back :=
  List.foldl_append

theorem move_stages_ne {other : Nat} (different : other ≠ index) :
    (crew.move job inputs index).stages other = crew.stages other := by
  rw [move]
  split
  · rfl
  · exact if_neg different

/-- An input without a move stays where it is. -/
theorem run_stages_of_notMem {schedule : List Nat} (still : index ∉ schedule) :
    (crew.run job inputs schedule).stages index = crew.stages index := by
  induction schedule generalizing crew with
  | nil => rfl
  | cons first rest induction =>
      rw [List.mem_cons, not_or] at still
      rw [run, List.foldl_cons]
      exact (induction still.2).trans (move_stages_ne still.1)

/-- The work on a first input, and on those behind it. -/
theorem processAll_cons {rest : List Path} {result : InputResult}
    {results : List (Path × InputResult)} {last : Layout} {left : FileStore}
    (first : ((Batch.process FileStore.access job input).run.run crew.layout).run crew.store =
      ((result, next), store))
    (others : ((Batch.processAll FileStore.access job rest).run next).run store =
      ((results, last), left)) :
    ((Batch.processAll FileStore.access job (input :: rest)).run crew.layout).run crew.store =
      (((input, result) :: results, last), left) := by
  rw [Batch.processAll, Batch.workAll, StateT.run_bind, StateT.run_bind, first]
  exact congrArg (fun ended : (List (Path × InputResult) × Layout) × FileStore =>
    (((input, result) :: ended.1.1, ended.1.2), ended.2)) others

/-- Work on the inputs one after the other is the work of a crew that makes all the moves on one
input before the next. -/
theorem run_oneByOne_range' (job : Job) (rest : List Path) (crew : Crew) (front : List Path)
    (waiting : ∀ index, front.length ≤ index → crew.stages index = .waiting) :
    ((Batch.processAll FileStore.access job rest).run crew.layout).run crew.store =
      let after := crew.run job (front ++ rest) (oneByOne (List.range' front.length rest.length))
      (((rest.zipIdx front.length).map fun (input, index) => (input, (after.stages index).result),
        after.layout), after.store) := by
  induction rest generalizing crew front with
  | nil => rfl
  | cons input rest induction =>
      obtain ⟨⟨⟨result, next⟩, store⟩, ran⟩ :
          ∃ ended, ((Batch.process FileStore.access job input).run.run crew.layout).run crew.store =
            ended := ⟨_, rfl⟩
      have found : (front ++ input :: rest)[front.length]? = some input := by simp
      have whole : front ++ [input] ++ rest = front ++ input :: rest := by simp
      have longer : (front ++ [input]).length = front.length + 1 := List.length_append
      have first := run_four found (waiting _ (Nat.le_refl _)) ran
      have others := induction (crew.put front.length (.done result) next store) (front ++ [input])
        fun index behind => by
          rw [put_stages_ne (by omega)]
          exact waiting index (by omega)
      rw [whole, longer] at others
      have order : oneByOne (List.range' front.length (rest.length + 1)) =
          List.replicate 4 front.length ++ oneByOne (List.range' (front.length + 1) rest.length) :=
        rfl
      have passed : front.length ∉ oneByOne (List.range' (front.length + 1) rest.length) := by
        intro member
        obtain ⟨index, among, same⟩ := List.mem_flatMap.mp member
        have := List.left_le_of_mem_range' among
        have := List.eq_of_mem_replicate same
        omega
      have stays : ((crew.put front.length (.done result) next store).run job
          (front ++ input :: rest) (oneByOne (List.range' (front.length + 1)
            rest.length))).stages front.length = .done result :=
        (run_stages_of_notMem passed).trans put_stages_self
      rw [processAll_cons ran others, List.length_cons, order, run_append, first, List.zipIdx_cons]
      dsimp only
      rw [List.map_cons, stays]
      rfl

/-- A batch is the work of a crew on one input after the other. -/
theorem run_eq_oneByOne (job : Job) (directory : Path) (inputs : List Path) (store : FileStore) :
    (Batch.run FileStore.access job directory inputs).run store =
      let ended := (start store directory inputs).run job inputs
        (oneByOne (List.range inputs.length))
      (ended.report inputs, ended.store) := by
  have ran := run_oneByOne_range' job inputs (start store directory inputs) [] fun _ _ => rfl
  rw [Batch.run, StateT.run_bind]
  rw [start] at ran
  rw [ran, List.nil_append, List.length_nil, ← List.range_eq_range']
  rfl

end Crew

end IslandSlots
