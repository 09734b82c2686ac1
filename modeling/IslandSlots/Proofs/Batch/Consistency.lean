import IslandSlots.Proofs.Batch.Effects

/-!
# What every schedule keeps

The moves on the inputs of a batch may fall between each other in any way. Whatever the moves so
far, a place is given out to the input that has asked for it first, what is on the way of an input
that is not read yet is what was there, and the files where nothing was are those of inputs that
have a place.
-/

namespace IslandSlots

namespace Stage

/-- How many moves are left at most. -/
def left : Stage → Nat
  | .waiting => 4
  | .asking .. => 3
  | .placed .. => 2
  | .ready .. => 1
  | .done _ => 0

/-- Whether the place of an output is given out to it. -/
def holds : Stage → Bool
  | .waiting | .asking .. | .done (.error (.collision _)) => false
  | _ => true

/-- Whether the place is given out and the directory made, unless that failed. -/
def builds (stage : Stage) : Bool :=
  stage.holds && decide (stage.left ≤ 1)

end Stage

namespace Batch

/-- Where the output of an input goes, if it has one. -/
def outputPath? (job : Job) (layout : Layout) (store : FileStore) (input : Path) : Option Path :=
  match plan job store input with
  | .ok (some (_, fileName)) => some (layout.pathFor input fileName)
  | _ => none

/-- Inputs none of which changes what another one reads, or puts a file where another one needs a
directory. -/
structure Apart (job : Job) (layout : Layout) (before : FileStore) (inputs : List Path) : Prop where
  /-- What an input changes is on the way of no other input. -/
  input {first second : Nat} {one other : Path} : inputs[first]? = some one →
    inputs[second]? = some other → first ≠ second → ∀ spot ∈ before.way one.steps,
      (alone job layout before other).2.find? spot = before.find? spot
  /-- No output is written where nothing was on the way of an output with other parts. -/
  output {one other output second : Path} : one ∈ inputs → other ∈ inputs →
    outputPath? job layout before one = some output →
    outputPath? job layout before other = some second → output.parts ≠ second.parts →
    ∀ spot ∈ before.way second.parts, before.find? spot = none →
      ∀ bytes, (alone job layout before one).2.find? spot ≠ some (.file bytes)

/-- Two inputs, given by their indices, whose outputs go to the same place. -/
def Rivals (job : Job) (layout : Layout) (before : FileStore) (inputs : List Path)
    (first second : Nat) : Prop :=
  ∃ one other output other_output, inputs[first]? = some one ∧ inputs[second]? = some other ∧
    outputPath? job layout before one = some output ∧
    outputPath? job layout before other = some other_output ∧ output.parts = other_output.parts

/-- An input makes its second move, by which it asks for the place of its output, before any of its
rivals does. -/
def AsksFirst (job : Job) (layout : Layout) (before : FileStore) (inputs : List Path)
    (schedule : List Nat) (index : Nat) : Prop :=
  ∃ front back, schedule = front ++ index :: back ∧ front.count index = 1 ∧
    ∀ rival, Rivals job layout before inputs index rival → rival ≠ index → front.count rival ≤ 1

end Batch

variable {job : Job} {layout : Layout} {before : FileStore} {inputs : List Path}
  {schedule : List Nat} {crew : Crew} {index : Nat} {input output : Path}
  {content fileName : String} {spot : List String}

namespace Batch

theorem outputPath?_eq_some :
    outputPath? job layout before input = some output ↔
      ∃ content fileName, plan job before input = .ok (some (content, fileName)) ∧
        layout.pathFor input fileName = output := by
  rw [outputPath?]
  split <;> simp_all

theorem outputPath?_of_plan (planned : plan job before input = .ok (some (content, fileName))) :
    outputPath? job layout before input = some (layout.pathFor input fileName) :=
  outputPath?_eq_some.mpr ⟨content, fileName, planned, rfl⟩

theorem AsksFirst.append (first : AsksFirst job layout before inputs schedule index)
    (later : List Nat) : AsksFirst job layout before inputs (schedule ++ later) index := by
  obtain ⟨front, back, rfl, once, rivals⟩ := first
  exact ⟨front, back ++ later, by simp, once, rivals⟩

theorem Rivals.symm {first second : Nat} (rivals : Rivals job layout before inputs first second) :
    Rivals job layout before inputs second first := by
  obtain ⟨one, other, output, other_output, found, other_found, has, other_has, same⟩ := rivals
  exact ⟨other, one, other_output, output, other_found, found, other_has, has, same.symm⟩

theorem Rivals.trans {first second third : Nat}
    (rivals : Rivals job layout before inputs first second)
    (others : Rivals job layout before inputs second third) :
    Rivals job layout before inputs first third := by
  obtain ⟨one, other, output, other_output, found, other_found, has, other_has, same⟩ := rivals
  obtain ⟨_, last, _, last_output, again, last_found, has_again, last_has, last_same⟩ := others
  obtain rfl := Option.some.inj (other_found.symm.trans again)
  obtain rfl := Option.some.inj (other_has.symm.trans has_again)
  exact ⟨one, last, output, last_output, found, last_found, has, last_has, same.trans last_same⟩

/-- Of two rivals only one asks first. -/
theorem AsksFirst.unique {rival : Nat} (first : AsksFirst job layout before inputs schedule index)
    (other : AsksFirst job layout before inputs schedule rival)
    (rivals : Rivals job layout before inputs index rival) : index = rival := by
  by_contra different
  have back_rivals := rivals.symm
  obtain ⟨front, back, split, once, before_rival⟩ := first
  obtain ⟨other_front, other_back, other_split, other_once, before_index⟩ := other
  have rival_late := before_rival rival rivals (Ne.symm different)
  have index_late := before_index index back_rivals different
  -- One of the two moves comes before the other one.
  obtain ⟨between, rfl, rest⟩ | ⟨between, rfl, rest⟩ :=
    List.append_eq_append_iff.mp (split.symm.trans other_split)
  · cases between with
    | nil => exact different (List.cons.inj rest).1
    | cons step between =>
        obtain rfl := (List.cons.inj rest).1
        rw [List.count_append, once, List.count_cons_self] at index_late
        omega
  · cases between with
    | nil => exact different (List.cons.inj rest).1.symm
    | cons step between =>
        obtain rfl := (List.cons.inj rest).1
        rw [List.count_append, other_once, List.count_cons_self] at rival_late
        omega

theorem apart_iff : Apart job layout before inputs ↔
    (∀ one ∈ inputs.zipIdx, ∀ other ∈ inputs.zipIdx, one.2 ≠ other.2 →
      ∀ spot ∈ before.way one.1.steps,
        (alone job layout before other.1).2.find? spot = before.find? spot) ∧
    ∀ one ∈ inputs, ∀ other ∈ inputs, ∀ output ∈ outputPath? job layout before one,
      ∀ second ∈ outputPath? job layout before other, output.parts ≠ second.parts →
        ∀ spot ∈ before.way second.parts, before.find? spot = none →
          ∀ bytes, (alone job layout before one).2.find? spot ≠ some (.file bytes) := by
  constructor
  · rintro ⟨input, output⟩
    refine ⟨fun ⟨one, first⟩ found ⟨other, second⟩ other_found => ?_,
      fun one member other other_member path has second other_has =>
        output member other_member has other_has⟩
    exact input (List.mem_zipIdx_iff_getElem?.mp found)
      (List.mem_zipIdx_iff_getElem?.mp other_found)
  · rintro ⟨input, output⟩
    refine ⟨fun found other_found => ?_, fun member other_member has other_has =>
      output _ member _ other_member _ has _ other_has⟩
    exact input (_, _) (List.mem_zipIdx_iff_getElem?.mpr found) (_, _)
      (List.mem_zipIdx_iff_getElem?.mpr other_found)

instance : Decidable (Apart job layout before inputs) :=
  decidable_of_iff _ apart_iff.symm

theorem rivals_iff {first second : Nat} : Rivals job layout before inputs first second ↔
    ∃ output ∈ inputs[first]?.bind (outputPath? job layout before),
      ∃ other ∈ inputs[second]?.bind (outputPath? job layout before),
        output.parts = other.parts := by
  constructor
  · rintro ⟨one, other, output, second_output, found, other_found, has, other_has, same⟩
    exact ⟨output, Option.bind_eq_some_iff.mpr ⟨one, found, has⟩, second_output,
      Option.bind_eq_some_iff.mpr ⟨other, other_found, other_has⟩, same⟩
  · rintro ⟨output, has, second_output, other_has, same⟩
    obtain ⟨one, found, has⟩ := Option.bind_eq_some_iff.mp has
    obtain ⟨other, other_found, other_has⟩ := Option.bind_eq_some_iff.mp other_has
    exact ⟨one, other, output, second_output, found, other_found, has, other_has, same⟩

instance (first second : Nat) : Decidable (Rivals job layout before inputs first second) :=
  decidable_of_iff _ rivals_iff.symm

theorem Rivals.inside {first second : Nat} (rivals : Rivals job layout before inputs first second) :
    second < inputs.length := by
  obtain ⟨_, _, _, _, -, found, -⟩ := rivals
  exact (List.getElem?_eq_some_iff.mp found).1

theorem asksFirst_iff : AsksFirst job layout before inputs schedule index ↔
    ∃ moves < schedule.length, schedule[moves]? = some index ∧
      (schedule.take moves).count index = 1 ∧ ∀ rival < inputs.length,
        Rivals job layout before inputs index rival → rival ≠ index →
          (schedule.take moves).count rival ≤ 1 := by
  constructor
  · rintro ⟨front, back, rfl, once, late⟩
    refine ⟨front.length, by simp, by simp, ?_, fun rival _ => ?_⟩
    · rwa [List.take_left]
    · rw [List.take_left]
      exact late rival
  · rintro ⟨moves, inside, asks, once, late⟩
    refine ⟨schedule.take moves, schedule.drop (moves + 1), ?_, once, fun rival rivals =>
      late rival rivals.inside rivals⟩
    rw [← (List.getElem?_eq_some_iff.mp asks).2, ← List.drop_eq_getElem_cons, List.take_append_drop]

instance : Decidable (AsksFirst job layout before inputs schedule index) :=
  decidable_of_iff _ asksFirst_iff.symm

end Batch

/-- A place on the way down to the directory of an output is on the way of the output. -/
theorem Setting.mem_way (setting : Setting job layout before)
    (planned : Batch.plan job before input = .ok (some (content, fileName)))
    (between : FileStore.Between setting.base (setting.dir input) spot) :
    spot ∈ before.way (layout.pathFor input fileName).parts := by
  obtain ⟨⟨taken, rfl⟩, within⟩ := between
  rw [dir, List.prefix_append_right_inj] at within
  rw [FileStore.way, (setting.descends planned).parts]
  exact FileStore.mem_scanl_of_walk setting.leads.1 within _

/-- Outputs at one place have the same parts. -/
theorem Setting.parts_eq_of_place_eq (setting : Setting job layout before) {second : Path}
    {other_content other_name : String}
    (planned : Batch.plan job before input = .ok (some (content, fileName)))
    (other_planned : Batch.plan job before second = .ok (some (other_content, other_name)))
    (same : setting.place input fileName = setting.place second other_name) :
    (layout.pathFor input fileName).parts = (layout.pathFor second other_name).parts := by
  rw [place, place, dir, dir] at same
  obtain ⟨names, last⟩ := List.append_inj' same rfl
  rw [(setting.descends planned).parts, (setting.descends other_planned).parts,
    List.append_cancel_left names, List.singleton_inj.mp last]

namespace Crew

/-! ## What every schedule keeps -/

/-- The input of an index has an output, and its place is given out to it. -/
structure Holds (job : Job) (layout : Layout) (before : FileStore) (inputs : List Path)
    (crew : Crew) (index : Nat) (output : Path) : Prop where
  /-- The input has an output. -/
  has : (inputs[index]?.bind (Batch.outputPath? job layout before)) = some output
  /-- Its place is given out. -/
  holds : (crew.stages index).holds

/-- What is so about an input at a stage. -/
inductive Stands (setting : Setting job layout before) (now : FileStore)
    (claimed : List (List PathPart)) (input : Path) : Stage → Prop where
  /-- It is not read. -/
  | waiting : Stands setting now claimed input .waiting
  /-- It has an output. -/
  | asking {content fileName : String}
      (planned : Batch.plan job before input = .ok (some (content, fileName))) :
      Stands setting now claimed input (.asking content fileName)
  /-- It has a place for the output. -/
  | placed {content fileName : String}
      (planned : Batch.plan job before input = .ok (some (content, fileName))) :
      Stands setting now claimed input (.placed (layout.pathFor input fileName) content)
  /-- The directory for the output is there. -/
  | ready {content fileName : String}
      (planned : Batch.plan job before input = .ok (some (content, fileName)))
      (clear : before.Clear setting.base (setting.dir input))
      (there : now.find? (setting.dir input) = some .directory) :
      Stands setting now claimed input (.ready (layout.pathFor input fileName) content)
  /-- The place of the output is given out to another input. -/
  | refused {content fileName : String}
      (planned : Batch.plan job before input = .ok (some (content, fileName)))
      (taken : (layout.pathFor input fileName).parts ∈ claimed) :
      Stands setting now claimed input
        (.done (.error (.collision ⟨layout.pathFor input fileName⟩)))
  /-- It is done as if it were worked on alone, and what it changes is changed. -/
  | alone (changed : ∀ spot, (Batch.alone job layout before input).2.find? spot ≠
        before.find? spot →
      now.find? spot = (Batch.alone job layout before input).2.find? spot) :
      Stands setting now claimed input (.done (Batch.alone job layout before input).1)

/-- What the moves of a schedule have made of the inputs, of the layout and of the files. -/
structure Consistent (setting : Setting job layout before) (inputs : List Path)
    (schedule : List Nat) (crew : Crew) : Prop where
  /-- Of the layout only what is given out changes. -/
  layout_eq : crew.layout = { layout with claimed := crew.layout.claimed }
  /-- Everything is in a directory. -/
  wellFormed : crew.store.WellFormed
  /-- The directories that were there are there. -/
  keeps : before.Keeps crew.store
  /-- Each move is one less of those that are left. -/
  left (index : Nat) : index < inputs.length →
    (crew.stages index).left = 0 ∨ (crew.stages index).left + schedule.count index ≤ 4
  /-- Without a move nothing is done. -/
  waits (index : Nat) : index < inputs.length →
    schedule.count index = 0 → crew.stages index = .waiting
  /-- What is given out is given out to an input. -/
  claimed (parts : List PathPart) : parts ∈ crew.layout.claimed ↔
    ∃ index output, Holds job layout before inputs crew index output ∧ output.parts = parts
  /-- No place is given out to two inputs. -/
  unique {first second : Nat} {output other : Path} :
    Holds job layout before inputs crew first output →
    Holds job layout before inputs crew second other → output.parts = other.parts → first = second
  /-- The input to which a place is given out has asked first. -/
  first {index : Nat} {output : Path} : Holds job layout before inputs crew index output →
    Batch.AsksFirst job layout before inputs schedule index
  /-- How the inputs stand. -/
  stands {index : Nat} {input : Path} : inputs[index]? = some input →
    Stands setting crew.store crew.layout.claimed input (crew.stages index)
  /-- What is somewhere was there before, or one of the inputs leaves it there. -/
  origin (spot : List String) : crew.store.find? spot = before.find? spot ∨
    ∃ index input, inputs[index]? = some input ∧ (crew.stages index).builds ∧
      crew.store.find? spot = (Batch.alone job layout before input).2.find? spot

variable {setting : Setting job layout before}

/-- Before the first move nothing is changed. -/
theorem consistent_start (setting : Setting job layout before) (inputs : List Path) :
    Consistent setting inputs [] ⟨before, layout, fun _ => .waiting⟩ where
  layout_eq := rfl
  wellFormed := setting.wellFormed
  keeps := ⟨rfl, fun _ => id⟩
  left _ _ := .inr (Nat.le_refl 4)
  waits _ _ _ := rfl
  claimed parts := by
    rw [setting.fresh]
    exact ⟨fun found => absurd found List.not_mem_nil,
      fun ⟨index, output, holds, _⟩ => absurd holds.holds Bool.false_ne_true⟩
  unique holds := by cases holds.holds
  first holds := by cases holds.holds
  stands _ := .waiting
  origin _ := .inl rfl

/-! ## What the files of a crew have to do with those before -/

/-- Where something has changed, an input has made a directory on the way to its output where
nothing was, or written the output. -/
theorem Consistent.change (consistent : Consistent setting inputs schedule crew)
    (changed : crew.store.find? spot ≠ before.find? spot) :
    ∃ index input content fileName, inputs[index]? = some input ∧ (crew.stages index).builds ∧
      Batch.plan job before input = .ok (some (content, fileName)) ∧
      before.Clear setting.base (setting.dir input) ∧
      (FileStore.Between setting.base (setting.dir input) spot ∧ before.find? spot = none ∧
          crew.store.find? spot = some .directory ∨
        spot = setting.place input fileName ∧ before.find? spot ≠ some .directory ∧
          crew.store.find? spot = some (.file (Text.bytes content))) := by
  obtain same | ⟨index, input, found, builds, left⟩ := consistent.origin spot
  · exact absurd same changed
  · rw [left] at changed ⊢
    obtain ⟨content, fileName, planned, clear, how⟩ := setting.changed changed
    exact ⟨index, input, content, fileName, found, builds, planned, clear, how⟩

/-- A file stays a file. -/
theorem Consistent.file_kept (consistent : Consistent setting inputs schedule crew)
    {bytes : List UInt8} (file : before.find? spot = some (.file bytes)) :
    ∃ bytes, crew.store.find? spot = some (.file bytes) := by
  by_cases same : crew.store.find? spot = before.find? spot
  · exact ⟨bytes, same.trans file⟩
  · obtain ⟨_, _, content, _, _, _, _, _, ⟨_, missing, _⟩ | ⟨_, _, written⟩⟩ :=
      consistent.change same
    · rw [file] at missing
      cases missing
    · exact ⟨_, written⟩

theorem holds_of_plan (found : inputs[index]? = some input)
    (planned : Batch.plan job before input = .ok (some (content, fileName)))
    (holds : (crew.stages index).holds) :
    Holds job layout before inputs crew index (layout.pathFor input fileName) where
  has := by rw [found, Option.bind_some, Batch.outputPath?_of_plan planned]
  holds := holds

theorem holds_of_builds {stage : Stage} (builds : stage.builds) : stage.holds :=
  (Bool.and_eq_true_iff.mp builds).1

/-- The place of an output that is written where nothing was is not on the way of another one. -/
theorem Consistent.not_between (consistent : Consistent setting inputs schedule crew)
    (apart : Batch.Apart job layout before inputs) {other : Nat} {second : Path}
    {other_content other_name : String} (different : index ≠ other)
    (found : inputs[index]? = some input) (other_found : inputs[other]? = some second)
    (planned : Batch.plan job before input = .ok (some (content, fileName)))
    (other_planned : Batch.plan job before second = .ok (some (other_content, other_name)))
    (holds : (crew.stages index).holds) (other_holds : (crew.stages other).holds)
    (clear : before.Clear setting.base (setting.dir input))
    (missing : before.find? (setting.place input fileName) = none) :
    ¬ FileStore.Between setting.base (setting.dir second) (setting.place input fileName) := by
  intro between
  refine apart.output (List.mem_of_getElem? found) (List.mem_of_getElem? other_found)
    (Batch.outputPath?_of_plan planned) (Batch.outputPath?_of_plan other_planned)
    (fun same => different (consistent.unique (holds_of_plan found planned holds)
      (holds_of_plan other_found other_planned other_holds) same))
    _ (setting.mem_way other_planned between) missing (Text.bytes content) ?_
  rw [setting.find?_alone planned clear, if_pos ⟨rfl, by simp [missing]⟩]

/-- On the way to the directory of an output that is not made yet, files are where they were. -/
theorem Consistent.file_between (consistent : Consistent setting inputs schedule crew)
    (apart : Batch.Apart job layout before inputs) (found : inputs[index]? = some input)
    (planned : Batch.plan job before input = .ok (some (content, fileName)))
    (stage_eq : crew.stages index = .placed output content)
    (between : FileStore.Between setting.base (setting.dir input) spot) {bytes : List UInt8}
    (file : crew.store.find? spot = some (.file bytes)) :
    ∃ bytes, before.find? spot = some (.file bytes) := by
  by_cases same : crew.store.find? spot = before.find? spot
  · exact ⟨bytes, same.symm.trans file⟩
  obtain ⟨other, second, _, _, other_found, builds, other_planned, clear, ⟨_, _, made⟩ |
    ⟨rfl, free, _⟩⟩ := consistent.change same
  · rw [file] at made
    cases made
  · have different : other ≠ index := by
      rintro rfl
      rw [stage_eq] at builds
      cases builds
    cases was : before.find? (setting.place second _) with
    | none =>
        exact absurd between (consistent.not_between apart different other_found found other_planned
          planned (holds_of_builds builds) (by rw [stage_eq]; rfl) clear was)
    | some entry =>
        cases entry with
        | directory => exact absurd was free
        | file bytes => exact ⟨bytes, rfl⟩

/-- A directory in place of an output was there before, as long as the output is not written. -/
theorem Consistent.directory_at_place (consistent : Consistent setting inputs schedule crew)
    (apart : Batch.Apart job layout before inputs) (found : inputs[index]? = some input)
    (planned : Batch.plan job before input = .ok (some (content, fileName)))
    (clear : before.Clear setting.base (setting.dir input))
    (holds : (crew.stages index).holds)
    (there : crew.store.find? (setting.place input fileName) = some .directory) :
    before.find? (setting.place input fileName) = some .directory := by
  by_cases same : crew.store.find? (setting.place input fileName) =
      before.find? (setting.place input fileName)
  · exact same.symm.trans there
  obtain ⟨other, second, _, _, other_found, builds, other_planned, other_clear,
    ⟨between, missing, _⟩ | ⟨_, _, written⟩⟩ := consistent.change same
  · have different : index ≠ other := by
      rintro rfl
      obtain rfl := Option.some.inj (found.symm.trans other_found)
      exact FileStore.not_concat_prefix between.2
    exact absurd between (consistent.not_between apart different found other_found planned
      other_planned holds (holds_of_builds builds) clear missing)
  · rw [there] at written
    cases written

/-- What is on the way of an input that is not read yet is what was there. -/
theorem Consistent.on_way (consistent : Consistent setting inputs schedule crew)
    (apart : Batch.Apart job layout before inputs) (found : inputs[index]? = some input)
    (stage_eq : crew.stages index = .waiting) (on_way : spot ∈ before.way input.steps) :
    crew.store.find? spot = before.find? spot := by
  obtain same | ⟨other, second, other_found, builds, left⟩ := consistent.origin spot
  · exact same
  · have different : index ≠ other := by
      rintro rfl
      rw [stage_eq] at builds
      cases builds
    exact left.trans (apart.input found other_found different spot on_way)

/-- So it is read as it was. -/
theorem Consistent.plan_eq (consistent : Consistent setting inputs schedule crew)
    (apart : Batch.Apart job layout before inputs) (found : inputs[index]? = some input)
    (stage_eq : crew.stages index = .waiting) :
    Batch.plan job crew.store input = Batch.plan job before input := by
  have same := FileStore.read_congr consistent.keeps.1.symm fun spot on_way =>
    (consistent.on_way apart found stage_eq on_way).symm
  rw [Batch.plan, Batch.plan, FileStore.text, FileStore.text, same]

end Crew

end IslandSlots
