import IslandSlots.Batch.Run
import IslandSlots.Proofs.Files.Directories
import IslandSlots.Proofs.Outcome

/-!
# Places of outputs

An output goes below the output directory, through the names of the directory of its input, to a
file name. So its path ends with names only, and it leads to one place, whatever is in the store.
-/

namespace IslandSlots

/-! ## File names of outputs -/

/-- A text that is long enough and has no slash is a name. -/
theorem PathPart.isName_of_length {text : String} (long : 2 < text.toList.length)
    (noSlash : '/' ∉ text.toList) : PathPart.IsName text where
  named := by
    rw [ofText?.eq_def]
    split
    · simp_all
    · simp_all
    · simp_all
    · rw [String.ofList_toList]
  noSlash := noSlash

namespace Path

theorem isName_of_fileName? {path : Path} {name : String} (found : path.fileName? = some name) :
    PathPart.IsName name := by
  obtain ⟨part, last, named⟩ := Option.bind_eq_some_iff.mp found
  cases part <;> cases named
  exact isName_of_mem_parts (List.mem_of_getLast? last)

/-- The name before the point has no slash either. -/
theorem noSlash_of_stem? {path : Path} {stem : String} (found : path.stem? = some stem) :
    '/' ∉ stem.toList := by
  obtain ⟨name, named, rfl⟩ := Option.map_eq_some_iff.mp found
  have apart := (isName_of_fileName? named).noSlash
  dsimp only
  split
  · exact apart
  · rw [String.toList_ofList, List.mem_reverse]
    intro slash
    refine apart (List.mem_reverse.mp ?_)
    exact (List.dropWhile_suffix _).subset ((List.drop_suffix 1 _).subset slash)

/-- Steps that end with a name lead where the parts of their path lead. -/
theorem resolve_steps_join (base : Path) {name : String} (plain : PathPart.IsName name)
    (store : FileStore) :
    store.resolve (base.join ⟨name⟩).steps = store.resolve (base.join ⟨name⟩).parts := by
  have last := getLast?_steps_join base plain
  have parts_last : (base.join ⟨name⟩).parts.getLast? = some (.name name) := by
    rw [← ofNames_singleton, parts_join base (List.forall_mem_singleton.mpr plain)]
    exact List.getLast?_concat
  have filled {steps : List PathPart} (ends : steps.getLast? = some (.name name)) :
      steps.isEmpty = false := by
    cases steps <;> simp_all
  rw [FileStore.resolve, FileStore.resolve, filled last, filled parts_last,
    ← FileStore.walk_counted (by simp [last]), counted_steps,
    FileStore.walk_counted (by simp [parts_last])]

/-- The name at the end of a path is the one that its steps end with, dots aside. -/
theorem fileName?_eq (path : Path) :
    path.fileName? = (counted path.steps).getLast?.bind PathPart.name? := by
  rw [fileName?, counted_steps, parts_eq, counted_append]
  have again : counted (counted (partsOf path.text.toList)) =
      counted (partsOf path.text.toList) := by
    simp [counted, List.filter_filter]
  rw [again, anchor]
  cases found : counted (partsOf path.text.toList) using List.reverseRecOn with
  | nil =>
      split
      · rfl
      · split <;> rfl
  | append_singleton parts last =>
      rw [← List.append_assoc, ← List.append_assoc, List.getLast?_concat, List.getLast?_concat]

end Path

/-- Steps that do not end with a name lead to a directory. -/
theorem FileStore.directory_of_walk {store : FileStore} (wellFormed : store.WellFormed)
    {start place : List String} {steps : List PathPart}
    (there : store.find? start = some .directory)
    (nameless : ∀ name, (Path.counted steps).getLast? ≠ some (.name name))
    (walked : store.walk start steps = .ok place) : store.find? place = some .directory := by
  cases steps using List.reverseRecOn with
  | nil => cases walked; exact there
  | append_singleton steps last =>
      rw [walk_append] at walked
      obtain ⟨above, -, walked⟩ := bind_eq_ok.mp walked
      rw [walk] at walked
      split at walked <;> [skip; cases walked; cases walked]
      rename_i above_there
      obtain rfl : follow above last = place := Except.ok.inj walked
      cases last with
      | root => rfl
      | here => exact above_there
      | up =>
          cases above using List.reverseRecOn with
          | nil => rfl
          | append_singleton around name =>
              rw [follow, List.dropLast_concat]
              exact wellFormed.around around name (by simp [above_there])
      | name text =>
          refine absurd ?_ (nameless text)
          rw [Path.counted, List.filter_append, List.filter_cons_of_pos (by simp)]
          exact List.getLast?_concat

/-- What can be read has a name. -/
theorem FileStore.isSome_fileName?_of_read {store : FileStore} (wellFormed : store.WellFormed)
    {path : Path} {bytes : List UInt8} (found : store.read path = .ok bytes) :
    path.fileName?.isSome := by
  rw [read] at found
  obtain ⟨place, resolved, found⟩ := bind_eq_ok.mp found
  rw [resolve] at resolved
  split at resolved <;> [cases resolved; skip]
  rw [Option.isSome_iff_ne_none, Path.fileName?_eq]
  intro nameless
  have there := directory_of_walk wellFormed wellFormed.current (fun name last => by
    rw [last] at nameless
    cases nameless) resolved
  rw [there] at found
  cases found

namespace Job

/-- A job that writes trees or annotated files. -/
def IsStandard (job : Job) : Prop :=
  (∃ helpers format, job = .tree helpers format) ∨
    ∃ registry helperImport, job = .annotate registry helperImport

/-- The output of an input that has a name gets a name. -/
theorem IsStandard.isName {job : Job} (standard : job.IsStandard) {input : Path}
    {source content fileName : String} (named : input.fileName?.isSome)
    (made : job input source = .ok (some (content, fileName))) : PathPart.IsName fileName := by
  obtain ⟨helpers, format, rfl⟩ | ⟨registry, helperImport, rfl⟩ := standard
  · obtain ⟨tree, -, made⟩ := bind_eq_ok.mp made
    obtain ⟨shown, -, written⟩ := Option.map_eq_some_iff.mp (Except.ok.inj made)
    obtain rfl := (Prod.mk.inj written).2
    refine PathPart.isName_of_length ?_ ?_
    · rw [String.toList_append, List.length_append]
      cases format <;> exact Nat.lt_of_lt_of_le (by decide) (Nat.le_add_left _ _)
    · rw [String.toList_append, List.mem_append, not_or]
      constructor
      · cases found : input.stem? with
        | none => decide
        | some stem => exact Path.noSlash_of_stem? found
      · cases format <;> decide
  · obtain ⟨code, -, made⟩ := bind_eq_ok.mp made
    obtain ⟨text, -, written⟩ := Option.map_eq_some_iff.mp (Except.ok.inj made)
    obtain ⟨name, found⟩ := Option.isSome_iff_exists.mp named
    obtain rfl := (Prod.mk.inj written).2
    rw [found, Option.getD_some]
    exact Path.isName_of_fileName? found

end Job

namespace Layout

variable {layout : Layout} {input : Path}

theorem isName_of_mem_relativeNames {name : String} (member : name ∈ layout.relativeNames input) :
    PathPart.IsName name := by
  obtain ⟨part, among, named⟩ := List.mem_filterMap.mp member
  cases part <;> cases named
  have whole : .name name ∈ input.parentParts := by
    rw [withoutBase] at among
    split at among
    · exact List.mem_of_mem_drop among
    · exact among
  rw [Path.parentParts] at whole
  split at whole
  · cases whole
  · exact Path.isName_of_mem_parts (List.mem_of_mem_dropLast whole)

end Layout

/-- A path that goes on from some steps through the names of directories to a file name. -/
structure Path.Descends (path : Path) (steps : List PathPart) (names : List String)
    (fileName : String) : Prop where
  /-- Its parts. -/
  parts : path.parts = steps ++ names.map .name ++ [.name fileName]
  /-- The parts of the directory that it is in. -/
  parent : path.parent.parts = steps ++ names.map .name
  /-- It leads where its parts lead. -/
  resolve (store : FileStore) : store.resolve path.steps = store.resolve path.parts

/-- An output descends from the output directory. -/
theorem Layout.pathFor_descends (layout : Layout) (input : Path) {steps : List PathPart}
    {names : List String} {fileName : String} (plain : PathPart.IsName fileName)
    (directory : layout.directory.parts = steps ++ names.map .name) :
    (layout.pathFor input fileName).Descends steps (names ++ layout.relativeNames input)
      fileName := by
  have parts : (layout.pathFor input fileName).parts =
      steps ++ (names ++ layout.relativeNames input).map .name ++ [.name fileName] := by
    rw [pathFor, ← Path.ofNames_singleton, Path.parts_join _ (List.forall_mem_singleton.mpr plain),
      Path.parts_join _ fun _ => isName_of_mem_relativeNames, directory, List.map_append,
      List.append_assoc steps]
    rfl
  refine ⟨parts, ?_, fun store => Path.resolve_steps_join _ plain store⟩
  rw [Path.parts_parent, Path.parentParts, parts, List.getLast?_concat, List.dropLast_concat,
    if_neg (by simp)]

end IslandSlots
