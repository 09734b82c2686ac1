import IslandSlots.Proofs.Batch.Moves
import IslandSlots.Proofs.Output.Places

/-!
# What an input changes

An input with an output makes the directories on the way to it and writes it. If a file is on the
way it changes nothing, and if a directory is in place of the output it writes nothing. What was
there stays what it was, a directory or a file.
-/

namespace IslandSlots

/-- A job, a layout nothing of which is given out, and files, with an output directory that is
below one that is there. -/
structure Setting (job : Job) (layout : Layout) (before : FileStore) where
  /-- The steps to a directory that is there. -/
  steps : List PathPart
  /-- The place of this directory. -/
  base : List String
  /-- The names from there down to the output directory. -/
  names : List String
  /-- The job is one of the two. -/
  standard : job.IsStandard
  /-- Nothing is given out. -/
  fresh : layout.claimed = []
  /-- Everything is in a directory. -/
  wellFormed : before.WellFormed
  /-- The output directory is behind the steps and the names. -/
  directory : layout.directory.parts = steps ++ names.map .name
  /-- The steps lead to the directory. -/
  leads : before.Leads steps base

namespace Setting

variable {job : Job} {layout : Layout} {before now : FileStore} {input output : Path}
  {content fileName : String} {spot : List String}

/-- The place of the directory of an input's output. -/
def dir (setting : Setting job layout before) (input : Path) : List String :=
  setting.base ++ (setting.names ++ layout.relativeNames input)

/-- The place of an input's output. -/
def place (setting : Setting job layout before) (input : Path) (fileName : String) : List String :=
  setting.dir input ++ [fileName]

variable (setting : Setting job layout before)

include setting

/-- What the job makes of an input that can be read has a name. -/
theorem isName (planned : Batch.plan job before input = .ok (some (content, fileName))) :
    PathPart.IsName fileName := by
  rw [Batch.plan] at planned
  split at planned <;> [skip; cases planned]
  rename_i source read
  obtain ⟨bytes, found, -⟩ := bind_eq_ok.mp read
  exact setting.standard.isName
    (FileStore.isSome_fileName?_of_read setting.wellFormed found) planned

theorem descends (planned : Batch.plan job before input = .ok (some (content, fileName))) :
    (layout.pathFor input fileName).Descends setting.steps
      (setting.names ++ layout.relativeNames input) fileName :=
  layout.pathFor_descends input (setting.isName planned) setting.directory

/-! ## Moves on an output -/

/-- The directory of an output is made, with those around it, if no file is on the way. -/
theorem made (planned : Batch.plan job before input = .ok (some (content, fileName)))
    (wellFormed : now.WellFormed) (keeps : before.Keeps now)
    (clear : now.Clear setting.base (setting.dir input)) :
    ∃ made, now.makeBackwards (layout.pathFor input fileName).parent.parts.reverse =
        (.ok (), made) ∧
      now.Made setting.base (setting.dir input) made := by
  rw [(setting.descends planned).parent]
  exact FileStore.makeBackwards_clear wellFormed (setting.leads.keeps keeps) clear

/-- A file on the way to the directory is in the way. -/
theorem blocked (planned : Batch.plan job before input = .ok (some (content, fileName)))
    (wellFormed : now.WellFormed) (keeps : before.Keeps now) {bytes : List UInt8}
    (between : FileStore.Between setting.base (setting.dir input) spot)
    (file : now.find? spot = some (.file bytes)) :
    now.makeBackwards (layout.pathFor input fileName).parent.parts.reverse =
      (.error (now.blocking (setting.dir input)), now) := by
  rw [(setting.descends planned).parent]
  exact FileStore.makeBackwards_blocked wellFormed (setting.leads.keeps keeps) between file

/-- An output is written to its place, unless a directory is there. -/
theorem written (planned : Batch.plan job before input = .ok (some (content, fileName)))
    (wellFormed : now.WellFormed) (keeps : before.Keeps now)
    (there : now.find? (setting.dir input) = some .directory) (bytes : List UInt8) :
    now.write (layout.pathFor input fileName) bytes =
      if now.find? (setting.place input fileName) = some .directory then .error .isDirectory
      else .ok (now.insert (setting.place input fileName) (.file bytes)) := by
  have descends := setting.descends planned
  refine FileStore.write_of_resolve ?_ bytes
  rw [descends.resolve, descends.parts]
  exact (setting.leads.keeps keeps).resolve wellFormed there fileName

/-! ## An input alone -/

theorem claim_fresh (fileName : String) : layout.claim input fileName =
    .ok (layout.pathFor input fileName,
      { layout with claimed := [(layout.pathFor input fileName).parts] }) := by
  rw [Layout.claim, setting.fresh]
  rfl

/-- An input with an output has its place when it is worked on alone. -/
theorem alone_eq (planned : Batch.plan job before input = .ok (some (content, fileName))) :
    Batch.alone job layout before input =
      let ended := ((Stage.moves FileStore.access job input 2
        (.placed (layout.pathFor input fileName) content)).run
          { layout with claimed := [(layout.pathFor input fileName).parts] }).run before
      (ended.1.1.result, ended.2) := by
  rw [Stage.alone_eq_moves, Stage.moves_step (Stage.step_waiting ..), planned, Stage.afterJob,
    Stage.moves_step (Stage.step_claimed _ _ _ (setting.claim_fresh fileName))]

/-- If a file is on the way to its output, an input changes nothing. -/
theorem alone_blocked (planned : Batch.plan job before input = .ok (some (content, fileName)))
    {bytes : List UInt8} (between : FileStore.Between setting.base (setting.dir input) spot)
    (file : before.find? spot = some (.file bytes)) :
    Batch.alone job layout before input =
      (.error (.noDirectory (layout.pathFor input fileName).parent
        (before.blocking (setting.dir input))), before) := by
  have failed := setting.blocked planned setting.wellFormed ⟨rfl, fun _ => id⟩ between file
  rw [setting.alone_eq planned, Stage.moves_step (Stage.step_notMade _ _ _ _ failed)]
  rfl

/-- If none is, the directories on the way are made and the output is written, unless there is a
directory in its place. -/
theorem alone_clear (planned : Batch.plan job before input = .ok (some (content, fileName)))
    (clear : before.Clear setting.base (setting.dir input)) :
    ∃ made, before.Made setting.base (setting.dir input) made ∧
      Batch.alone job layout before input =
        if before.find? (setting.place input fileName) = some .directory then
          (.error (.notWritten (layout.pathFor input fileName) .isDirectory), made)
        else
          (.ok (.written (layout.pathFor input fileName)),
            made.insert (setting.place input fileName) (.file (Text.bytes content))) := by
  obtain ⟨made, ran, laid⟩ := setting.made planned setting.wellFormed ⟨rfl, fun _ => id⟩ clear
  have written := setting.written planned (laid.wellFormed setting.wellFormed setting.leads.2)
    laid.keeps laid.there (Text.bytes content)
  have same : made.find? (setting.place input fileName) =
      before.find? (setting.place input fileName) := by
    rw [laid.find?, if_neg fun between => FileStore.not_concat_prefix between.2]
  rw [same] at written
  refine ⟨made, laid, ?_⟩
  split at written
  · rename_i taken
    rw [if_pos taken, setting.alone_eq planned, Stage.moves_step (Stage.step_made _ _ _ _ ran),
      Stage.moves_step (Stage.step_notWritten _ _ _ written)]
    rfl
  · rename_i free
    rw [if_neg free, setting.alone_eq planned, Stage.moves_step (Stage.step_made _ _ _ _ ran),
      Stage.moves_step (Stage.step_written _ _ _ written)]
    rfl

/-- What becomes of an input alone if no file is on the way to its output. -/
theorem alone_result (planned : Batch.plan job before input = .ok (some (content, fileName)))
    (clear : before.Clear setting.base (setting.dir input)) :
    (Batch.alone job layout before input).1 =
      if before.find? (setting.place input fileName) = some .directory then
        .error (.notWritten (layout.pathFor input fileName) .isDirectory)
      else .ok (.written (layout.pathFor input fileName)) := by
  obtain ⟨made, -, alone⟩ := setting.alone_clear planned clear
  rw [alone]
  split <;> rfl

/-- What is at a place after an input alone if no file is on the way to its output. -/
theorem find?_alone (planned : Batch.plan job before input = .ok (some (content, fileName)))
    (clear : before.Clear setting.base (setting.dir input)) (spot : List String) :
    (Batch.alone job layout before input).2.find? spot =
      if spot = setting.place input fileName ∧ before.find? spot ≠ some .directory then
        some (.file (Text.bytes content))
      else if FileStore.Between setting.base (setting.dir input) spot then some .directory
      else before.find? spot := by
  obtain ⟨made, laid, alone⟩ := setting.alone_clear planned clear
  rw [alone]
  by_cases taken : before.find? (setting.place input fileName) = some .directory
  · rw [if_pos taken, if_neg fun free => free.2 (free.1 ▸ taken)]
    exact laid.find? spot
  · rw [if_neg taken]
    by_cases same : spot = setting.place input fileName
    · rw [if_pos ⟨same, same ▸ taken⟩]
      exact (FileStore.find?_insert (by simp [place]) _ _ _).trans (if_pos same)
    · rw [if_neg fun free => same free.1]
      exact ((FileStore.find?_insert (by simp [place]) _ _ _).trans (if_neg same)).trans
        (laid.find? spot)

end Setting

/-- An input that fails early changes nothing. -/
theorem Batch.alone_failed {job : Job} {layout : Layout} {before : FileStore} {input : Path}
    {failure : InputFailure} (planned : plan job before input = .error failure) :
    alone job layout before input = (.error failure, before) := by
  rw [Stage.alone_eq_moves, Stage.moves_step (Stage.step_waiting ..), planned]
  rfl

/-- An input that needs no output changes nothing. -/
theorem Batch.alone_unchanged {job : Job} {layout : Layout} {before : FileStore} {input : Path}
    (planned : plan job before input = .ok none) :
    alone job layout before input = (.ok .unchanged, before) := by
  rw [Stage.alone_eq_moves, Stage.moves_step (Stage.step_waiting ..), planned]
  rfl

namespace Setting

variable {job : Job} {layout : Layout} {before : FileStore} {spot : List String}
  (setting : Setting job layout before)

include setting

/-- An input alone changes nothing, or it has an output and no file is on the way to it. -/
theorem alone_eq_or_clear (input : Path) : (Batch.alone job layout before input).2 = before ∨
    ∃ content fileName, Batch.plan job before input = .ok (some (content, fileName)) ∧
      before.Clear setting.base (setting.dir input) := by
  match planned : Batch.plan job before input with
  | .error failure => exact .inl (by rw [Batch.alone_failed planned])
  | .ok none => exact .inl (by rw [Batch.alone_unchanged planned])
  | .ok (some (content, fileName)) =>
      by_cases clear : before.Clear setting.base (setting.dir input)
      · exact .inr ⟨content, fileName, rfl, clear⟩
      · obtain ⟨spot, bytes, between, file⟩ := FileStore.exists_file_of_not_clear clear
        exact .inl (by rw [setting.alone_blocked planned between file])

/-- Where an input alone leaves something else than there was, it is a directory on the way to the
output where nothing was, or the output itself. -/
theorem changed {input : Path}
    (changed : (Batch.alone job layout before input).2.find? spot ≠ before.find? spot) :
    ∃ content fileName, Batch.plan job before input = .ok (some (content, fileName)) ∧
      before.Clear setting.base (setting.dir input) ∧
      (FileStore.Between setting.base (setting.dir input) spot ∧ before.find? spot = none ∧
          (Batch.alone job layout before input).2.find? spot = some .directory ∨
        spot = setting.place input fileName ∧ before.find? spot ≠ some .directory ∧
          (Batch.alone job layout before input).2.find? spot =
            some (.file (Text.bytes content))) := by
  obtain same | ⟨content, fileName, planned, clear⟩ := setting.alone_eq_or_clear input
  · rw [same] at changed
    exact absurd rfl changed
  · refine ⟨content, fileName, planned, clear, ?_⟩
    rw [setting.find?_alone planned clear] at changed ⊢
    split at changed
    · rename_i output
      rw [if_pos output]
      exact .inr ⟨output.1, output.2, rfl⟩
    · rename_i elsewhere
      rw [if_neg elsewhere]
      split at changed <;> [skip; exact absurd rfl changed]
      rename_i between
      rw [if_pos between]
      refine .inl ⟨between, ?_, rfl⟩
      cases found : before.find? spot with
      | none => rfl
      | some entry =>
          cases entry with
          | directory => exact absurd found.symm changed
          | file bytes => exact absurd found (clear spot between bytes)

/-- A directory stays one, and a file stays a file. -/
theorem alone_kept (input : Path) {entry : FileEntry} (there : before.find? spot = some entry) :
    ∃ after, (Batch.alone job layout before input).2.find? spot = some after ∧
      (after = .directory ↔ entry = .directory) := by
  by_cases same : (Batch.alone job layout before input).2.find? spot = before.find? spot
  · exact ⟨entry, same.trans there, .rfl⟩
  · obtain ⟨content, fileName, -, -, ⟨-, missing, -⟩ | ⟨-, free, written⟩⟩ := setting.changed same
    · rw [there] at missing
      cases missing
    · refine ⟨_, written, ?_⟩
      simpa [there] using free

end Setting

end IslandSlots
