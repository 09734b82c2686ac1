import IslandSlots.Proofs.Batch.Consistency

/-!
# Batches in any order

If no input changes what is on the way of another one, and no output is written where nothing was
on the way of another one, an input ends as if it were worked on alone, unless another one has
asked before it for the same place. So the report and the files depend on nothing but which of the
inputs with the same place asks first.
-/

namespace IslandSlots

namespace Crew

variable {job : Job} {layout : Layout} {before : FileStore} {inputs : List Path}
  {schedule : List Nat} {crew : Crew} {index : Nat} {input output : Path}
  {content fileName : String} {spot : List String} {setting : Setting job layout before}

/-! ## One move -/

variable {stage : Stage} {next : Layout} {store : FileStore}

/-- How an input stands is not changed by what others do, unless they change what it has changed. -/
theorem Stands.mono {now later : FileStore} {claimed after : List (List PathPart)}
    (stands : Stands setting now claimed input stage) (keeps : now.Keeps later)
    (more : claimed ⊆ after)
    (kept : stage = .done (Batch.alone job layout before input).1 → ∀ spot,
      (Batch.alone job layout before input).2.find? spot ≠ before.find? spot →
      now.find? spot = (Batch.alone job layout before input).2.find? spot →
      later.find? spot = (Batch.alone job layout before input).2.find? spot) :
    Stands setting later after input stage := by
  cases stands with
  | waiting => exact .waiting
  | asking planned => exact .asking planned
  | placed planned => exact .placed planned
  | ready planned clear there => exact .ready planned clear (keeps.2 _ there)
  | refused planned taken => exact .refused planned (more taken)
  | alone changed => exact .alone fun spot was => kept rfl spot was (changed spot was)

theorem Consistent.left_put (consistent : Consistent setting inputs schedule crew)
    (lower : stage.left + 1 ≤ (crew.stages index).left ∨ stage.left = 0) (other : Nat)
    (inside : other < inputs.length) :
    ((crew.put index stage next store).stages other).left = 0 ∨
      ((crew.put index stage next store).stages other).left + (schedule ++ [index]).count other ≤
        4 := by
  rw [List.count_append]
  obtain done | moves := consistent.left other inside
  · by_cases same : other = index
    · subst same
      rw [put_stages_self]
      exact .inl (by omega)
    · rw [put_stages_ne same]
      exact .inl done
  · by_cases same : other = index
    · subst same
      rw [put_stages_self, List.count_singleton_self]
      omega
    · rw [put_stages_ne same, List.count_singleton, if_neg (by simpa using Ne.symm same)]
      exact .inr moves

theorem Consistent.waits_put (consistent : Consistent setting inputs schedule crew) (other : Nat)
    (inside : other < inputs.length) (none : (schedule ++ [index]).count other = 0) :
    (crew.put index stage next store).stages other = .waiting := by
  rw [List.count_append, List.count_singleton, Nat.add_eq_zero_iff] at none
  have different : other ≠ index := by
    rintro rfl
    simp at none
  rw [put_stages_ne different]
  exact consistent.waits other inside none.1

/-- Where the inputs that have a place are the same, a move on one of them keeps everything else. -/
theorem Consistent.put (consistent : Consistent setting inputs schedule crew)
    (found : inputs[index]? = some input)
    (lower : stage.left + 1 ≤ (crew.stages index).left ∨ stage.left = 0)
    (holds : ∀ output, Batch.outputPath? job layout before input = some output →
      stage.holds = (crew.stages index).holds)
    (wellFormed : store.WellFormed) (keeps : crew.store.Keeps store)
    (stands : Stands setting store crew.layout.claimed input stage)
    (kept : ∀ other second spot, other ≠ index → inputs[other]? = some second →
      crew.stages other = .done (Batch.alone job layout before second).1 →
      (Batch.alone job layout before second).2.find? spot ≠ before.find? spot →
      crew.store.find? spot = (Batch.alone job layout before second).2.find? spot →
      store.find? spot = (Batch.alone job layout before second).2.find? spot)
    (builds : (crew.stages index).builds → stage.builds)
    (origin : ∀ spot, store.find? spot = crew.store.find? spot ∨
      stage.builds ∧ store.find? spot = (Batch.alone job layout before input).2.find? spot) :
    Consistent setting inputs (schedule ++ [index]) (crew.put index stage crew.layout store) := by
  have same_holds (other : Nat) (output : Path) :
      Holds job layout before inputs (crew.put index stage crew.layout store) other output ↔
        Holds job layout before inputs crew other output := by
    have same (has : (inputs[other]?.bind (Batch.outputPath? job layout before)) = some output) :
        ((crew.put index stage crew.layout store).stages other).holds =
          (crew.stages other).holds := by
      by_cases same : other = index
      · subst same
        rw [found, Option.bind_some] at has
        rw [put_stages_self, holds output has]
      · rw [put_stages_ne same]
    exact ⟨fun held => ⟨held.has, same held.has ▸ held.holds⟩,
      fun held => ⟨held.has, (same held.has).symm ▸ held.holds⟩⟩
  exact {
    layout_eq := consistent.layout_eq
    wellFormed := wellFormed
    keeps := ⟨keeps.1.trans consistent.keeps.1,
      fun spot there => keeps.2 spot (consistent.keeps.2 spot there)⟩
    left := consistent.left_put lower
    waits := consistent.waits_put
    claimed := fun parts => by
      simp only [same_holds]
      exact consistent.claimed parts
    unique := fun first second => consistent.unique ((same_holds _ _).mp first)
      ((same_holds _ _).mp second)
    first := fun first => (consistent.first ((same_holds _ _).mp first)).append [index]
    stands := fun {other second} other_found => by
      by_cases same : other = index
      · subst same
        obtain rfl := Option.some.inj (found.symm.trans other_found)
        rw [put_stages_self]
        exact stands
      · rw [put_stages_ne same]
        exact (consistent.stands other_found).mono keeps (List.Subset.refl _)
          fun done spot => kept other second spot same other_found done
    origin := fun spot => by
      obtain same | ⟨made, left⟩ := origin spot
      · obtain there | ⟨other, second, other_found, other_builds, left⟩ := consistent.origin spot
        · exact .inl (same.trans there)
        · refine .inr ⟨other, second, other_found, ?_, same.trans left⟩
          by_cases same : other = index
          · subst same
            rw [put_stages_self]
            exact builds other_builds
          · rwa [put_stages_ne same]
      · exact .inr ⟨index, input, found, by rwa [put_stages_self], left⟩ }

/-- A move that changes neither the files nor the layout. -/
theorem Consistent.put_still (consistent : Consistent setting inputs schedule crew)
    (found : inputs[index]? = some input)
    (lower : stage.left + 1 ≤ (crew.stages index).left ∨ stage.left = 0)
    (holds : ∀ output, Batch.outputPath? job layout before input = some output →
      stage.holds = (crew.stages index).holds)
    (stands : Stands setting crew.store crew.layout.claimed input stage)
    (builds : (crew.stages index).builds → stage.builds) :
    Consistent setting inputs (schedule ++ [index])
      (crew.put index stage crew.layout crew.store) :=
  consistent.put found lower holds consistent.wellFormed ⟨rfl, fun _ => id⟩ stands
    (fun _ _ _ _ _ _ _ left => left) builds fun _ => .inl rfl

/-- An input that changes nothing is done as if it were worked on alone. -/
theorem stands_of_unchanged {now : FileStore} {claimed : List (List PathPart)}
    {result : InputResult} (alone : Batch.alone job layout before input = (result, before)) :
    Stands setting now claimed input (.done result) := by
  have stands : Stands setting now claimed input
      (.done (Batch.alone job layout before input).1) :=
    .alone fun spot changed => absurd (by rw [alone]) changed
  rwa [alone] at stands

/-- An input is read and goes through the job. -/
theorem Consistent.step_waiting (consistent : Consistent setting inputs schedule crew)
    (apart : Batch.Apart job layout before inputs) (found : inputs[index]? = some input)
    (stage_eq : crew.stages index = .waiting) :
    Consistent setting inputs (schedule ++ [index]) (crew.move job inputs index) := by
  have stepped := Stage.step_waiting job input crew.layout crew.store
  rw [consistent.plan_eq apart found stage_eq] at stepped
  rw [move_eq_put found stage_eq stepped]
  have idle : ¬ (crew.stages index).builds := by
    rw [stage_eq]
    exact Bool.false_ne_true
  match planned : Batch.plan job before input with
  | .error failure =>
      refine consistent.put_still found (.inr rfl) (fun output has => ?_)
        (stands_of_unchanged (Batch.alone_failed planned)) fun builds => absurd builds idle
      obtain ⟨_, _, other, -⟩ := Batch.outputPath?_eq_some.mp has
      cases planned.symm.trans other
  | .ok none =>
      refine consistent.put_still found (.inr rfl) (fun output has => ?_)
        (stands_of_unchanged (Batch.alone_unchanged planned)) fun builds => absurd builds idle
      obtain ⟨_, _, other, -⟩ := Batch.outputPath?_eq_some.mp has
      cases planned.symm.trans other
  | .ok (some (content, fileName)) =>
      exact consistent.put_still found (.inl (by rw [stage_eq]; exact Nat.le_refl 4))
        (fun _ _ => by rw [stage_eq]; rfl) (.asking planned) fun builds => absurd builds idle

/-- An input with an output that is done as if it were worked on alone has a place. -/
theorem holds_alone (setting : Setting job layout before)
    (planned : Batch.plan job before input = .ok (some (content, fileName))) :
    (Stage.done (Batch.alone job layout before input).1).holds := by
  by_cases clear : before.Clear setting.base (setting.dir input)
  · rw [setting.alone_result planned clear]
    split <;> rfl
  · obtain ⟨spot, bytes, between, file⟩ := FileStore.exists_file_of_not_clear clear
    rw [setting.alone_blocked planned between file]
    rfl

/-- The place of an output whose input has made its second move is given out. -/
theorem Consistent.claimed_of_late (consistent : Consistent setting inputs schedule crew)
    (found : inputs[index]? = some input)
    (planned : Batch.plan job before input = .ok (some (content, fileName)))
    (late : 2 ≤ schedule.count index) :
    (layout.pathFor input fileName).parts ∈ crew.layout.claimed := by
  have few := consistent.left index (List.getElem?_eq_some_iff.mp found).1
  have given (holds : (crew.stages index).holds) :
      (layout.pathFor input fileName).parts ∈ crew.layout.claimed :=
    (consistent.claimed _).mpr ⟨index, _, holds_of_plan found planned holds, rfl⟩
  have stands := consistent.stands found
  generalize crew.stages index = stage at few given stands
  cases stands with
  | waiting | asking =>
      simp only [Stage.left] at few
      omega
  | placed | ready => exact given rfl
  | refused other_planned taken =>
      cases planned.symm.trans other_planned
      exact taken
  | alone changed => exact given (holds_alone setting planned)

theorem Consistent.claim_eq (consistent : Consistent setting inputs schedule crew)
    (input : Path) (fileName : String) : crew.layout.claim input fileName =
      if crew.layout.claimed.contains (layout.pathFor input fileName).parts then
        .error ⟨layout.pathFor input fileName⟩
      else .ok (layout.pathFor input fileName,
        { layout with
          claimed := (layout.pathFor input fileName).parts :: crew.layout.claimed }) := by
  rw [consistent.layout_eq]
  rfl

/-- Once the place of an output is given out to it, the inputs with a place are its input and those
that had one before. -/
theorem holds_put_claimed (layout later : Layout) (found : inputs[index]? = some input)
    (planned : Batch.plan job before input = .ok (some (content, fileName)))
    (stage_eq : crew.stages index = .asking content fileName) (other : Nat) (output : Path) :
    Holds job layout before inputs
        (crew.put index (.placed (layout.pathFor input fileName) content) later crew.store)
        other output ↔
      other = index ∧ output = layout.pathFor input fileName ∨
        Holds job layout before inputs crew other output := by
  have has : (inputs[index]?.bind (Batch.outputPath? job layout before)) =
      some (layout.pathFor input fileName) := by
    rw [found, Option.bind_some, Batch.outputPath?_of_plan planned]
  by_cases same : other = index
  · subst same
    refine ⟨fun held => .inl ⟨rfl, Option.some.inj (held.has.symm.trans has)⟩, ?_⟩
    rintro (⟨-, rfl⟩ | held)
    · exact ⟨has, by rw [put_stages_self]; rfl⟩
    · have := held.holds
      rw [stage_eq] at this
      cases this
  · refine ⟨fun held => .inr ⟨held.has, put_stages_ne same ▸ held.holds⟩, ?_⟩
    rintro (⟨rfl, -⟩ | held)
    · exact absurd rfl same
    · exact ⟨held.has, (put_stages_ne same).symm ▸ held.holds⟩

/-- An input that asks for a free place is the first one to ask for it. -/
theorem Consistent.asksFirst_of_free (consistent : Consistent setting inputs schedule crew)
    (found : inputs[index]? = some input)
    (planned : Batch.plan job before input = .ok (some (content, fileName)))
    (stage_eq : crew.stages index = .asking content fileName)
    (free : (layout.pathFor input fileName).parts ∉ crew.layout.claimed) :
    Batch.AsksFirst job layout before inputs (schedule ++ [index]) index := by
  have inside := (List.getElem?_eq_some_iff.mp found).1
  refine ⟨schedule, [], rfl, ?_, fun rival rivals different => ?_⟩
  · have few := consistent.left index inside
    have some_move : schedule.count index ≠ 0 := fun none => by
      cases stage_eq.symm.trans (consistent.waits index inside none)
    rw [stage_eq] at few
    simp only [Stage.left] at few
    omega
  · by_contra late
    obtain ⟨one, other, output, other_output, one_found, other_found, one_has, other_has, same⟩ :=
      rivals
    obtain rfl := Option.some.inj (found.symm.trans one_found)
    obtain ⟨_, _, other_planned, rfl⟩ := Batch.outputPath?_eq_some.mp other_has
    obtain rfl := Option.some.inj ((Batch.outputPath?_of_plan planned).symm.trans one_has)
    have taken := consistent.claimed_of_late other_found other_planned (by omega)
    exact free (same ▸ taken)

/-- The place of an output is given out to it. -/
theorem Consistent.put_claimed (consistent : Consistent setting inputs schedule crew)
    (found : inputs[index]? = some input)
    (planned : Batch.plan job before input = .ok (some (content, fileName)))
    (stage_eq : crew.stages index = .asking content fileName)
    (free : (layout.pathFor input fileName).parts ∉ crew.layout.claimed) :
    Consistent setting inputs (schedule ++ [index])
      (crew.put index (.placed (layout.pathFor input fileName) content)
        { layout with claimed := (layout.pathFor input fileName).parts :: crew.layout.claimed }
        crew.store) := by
  have holds_iff := holds_put_claimed layout
    { layout with claimed := (layout.pathFor input fileName).parts :: crew.layout.claimed }
    found planned stage_eq
  have old_apart {place : Nat} {third : Path}
      (old : Holds job layout before inputs crew place third) :
      third.parts ≠ (layout.pathFor input fileName).parts := fun same =>
    free ((consistent.claimed _).mpr ⟨place, third, old, same⟩)
  exact {
    layout_eq := rfl
    wellFormed := consistent.wellFormed
    keeps := consistent.keeps
    left := consistent.left_put (.inl (by rw [stage_eq]; exact Nat.le_refl 3))
    waits := consistent.waits_put
    claimed := fun parts => by
      change parts ∈ _ :: crew.layout.claimed ↔ _
      rw [List.mem_cons, consistent.claimed]
      constructor
      · rintro (rfl | ⟨other, output, held, same⟩)
        · exact ⟨index, _, (holds_iff _ _).mpr (.inl ⟨rfl, rfl⟩), rfl⟩
        · exact ⟨other, output, (holds_iff _ _).mpr (.inr held), same⟩
      · rintro ⟨other, output, held, same⟩
        obtain ⟨-, rfl⟩ | held := (holds_iff _ _).mp held
        · exact .inl same.symm
        · exact .inr ⟨other, output, held, same⟩
    unique := fun {one other output second} held other_held same => by
      obtain ⟨rfl, rfl⟩ | held := (holds_iff _ _).mp held
      · obtain ⟨rfl, -⟩ | other_held := (holds_iff _ _).mp other_held
        · rfl
        · exact absurd same.symm (old_apart other_held)
      · obtain ⟨-, rfl⟩ | other_held := (holds_iff _ _).mp other_held
        · exact absurd same (old_apart held)
        · exact consistent.unique held other_held same
    first := fun {other output} held => by
      obtain ⟨rfl, -⟩ | held := (holds_iff _ _).mp held
      · exact consistent.asksFirst_of_free found planned stage_eq free
      · exact (consistent.first held).append [index]
    stands := fun {other second} other_found => by
      by_cases same : other = index
      · subst same
        obtain rfl := Option.some.inj (found.symm.trans other_found)
        rw [put_stages_self]
        exact .placed planned
      · rw [put_stages_ne same]
        exact (consistent.stands other_found).mono ⟨rfl, fun _ => id⟩ (List.subset_cons_self _ _)
          fun _ _ _ left => left
    origin := fun spot => by
      obtain there | ⟨other, second, other_found, builds, left⟩ := consistent.origin spot
      · exact .inl there
      · refine .inr ⟨other, second, other_found, ?_, left⟩
        rwa [put_stages_ne]
        rintro rfl
        rw [stage_eq] at builds
        cases builds }

/-- An input asks for the place of its output. -/
theorem Consistent.step_asking (consistent : Consistent setting inputs schedule crew)
    (found : inputs[index]? = some input)
    (planned : Batch.plan job before input = .ok (some (content, fileName)))
    (stage_eq : crew.stages index = .asking content fileName) :
    Consistent setting inputs (schedule ++ [index]) (crew.move job inputs index) := by
  have claim := consistent.claim_eq input fileName
  split at claim
  · rename_i taken
    rw [move_eq_put found stage_eq (Stage.step_refused job content crew.store claim)]
    refine consistent.put_still found (.inr rfl) (fun _ _ => by rw [stage_eq]; rfl)
      (.refused planned (List.contains_iff_mem.mp taken)) fun builds => ?_
    rw [stage_eq] at builds
    cases builds
  · rename_i free
    rw [move_eq_put found stage_eq (Stage.step_claimed job content crew.store claim)]
    exact consistent.put_claimed found planned stage_eq fun taken =>
      free (List.contains_iff_mem.mpr taken)

/-- The directory of an output is made. -/
theorem Consistent.put_made (consistent : Consistent setting inputs schedule crew)
    (found : inputs[index]? = some input)
    (planned : Batch.plan job before input = .ok (some (content, fileName)))
    (stage_eq : crew.stages index = .placed (layout.pathFor input fileName) content)
    (clear : before.Clear setting.base (setting.dir input))
    (now_clear : crew.store.Clear setting.base (setting.dir input))
    (laid : crew.store.Made setting.base (setting.dir input) store) :
    Consistent setting inputs (schedule ++ [index])
      (crew.put index (.ready (layout.pathFor input fileName) content) crew.layout store) := by
  refine consistent.put found (.inl (by rw [stage_eq]; exact Nat.le_refl 2))
    (fun _ _ => by rw [stage_eq]; rfl)
    (laid.wellFormed consistent.wellFormed (consistent.keeps.2 _ setting.leads.2)) laid.keeps
    (.ready planned clear laid.there) (fun other second spot _ _ _ changed left => ?kept)
    (fun _ => rfl) fun spot => ?origin
  case kept =>
    rw [laid.find?]
    split <;> [skip; exact left]
    rename_i between
    cases there : crew.store.find? spot with
    | none =>
        rw [there] at left
        obtain ⟨entry, was⟩ := Option.ne_none_iff_exists'.mp fun missing =>
          changed (left.symm.trans missing.symm)
        obtain ⟨after, still, -⟩ := setting.alone_kept second was
        cases left.trans still
    | some entry =>
        cases entry with
        | directory => exact there.symm.trans left
        | file bytes => exact absurd there (now_clear spot between bytes)
  case origin =>
    by_cases between : FileStore.Between setting.base (setting.dir input) spot
    · right
      refine ⟨rfl, ?_⟩
      rw [laid.find?, if_pos between, setting.find?_alone planned clear, if_neg, if_pos between]
      rintro ⟨rfl, -⟩
      exact FileStore.not_concat_prefix between.2
    · left
      rw [laid.find?, if_neg between]

/-- The directory of an output is made, or a file is in the way. -/
theorem Consistent.step_placed (consistent : Consistent setting inputs schedule crew)
    (apart : Batch.Apart job layout before inputs) (found : inputs[index]? = some input)
    (planned : Batch.plan job before input = .ok (some (content, fileName)))
    (stage_eq : crew.stages index = .placed (layout.pathFor input fileName) content) :
    Consistent setting inputs (schedule ++ [index]) (crew.move job inputs index) := by
  have files_before {spot : List String} {bytes : List UInt8}
      (between : FileStore.Between setting.base (setting.dir input) spot)
      (file : crew.store.find? spot = some (.file bytes)) :
      ∃ bytes, before.find? spot = some (.file bytes) :=
    consistent.file_between apart found planned stage_eq between file
  by_cases clear : before.Clear setting.base (setting.dir input)
  · have now_clear : crew.store.Clear setting.base (setting.dir input) := by
      intro spot between bytes file
      obtain ⟨bytes, file⟩ := files_before between file
      exact clear spot between bytes file
    obtain ⟨made, ran, laid⟩ :=
      setting.made planned consistent.wellFormed consistent.keeps now_clear
    rw [move_eq_put found stage_eq (Stage.step_made job input crew.layout content ran)]
    exact consistent.put_made found planned stage_eq clear now_clear laid
  · obtain ⟨spot, bytes, between, file⟩ := FileStore.exists_file_of_not_clear clear
    obtain ⟨now_bytes, now_file⟩ := consistent.file_kept file
    have failed := setting.blocked planned consistent.wellFormed consistent.keeps between now_file
    have same : crew.store.blocking (setting.dir input) =
        before.blocking (setting.dir input) := by
      refine FileStore.blocking_congr ⟨?_, ?_⟩
      · rintro ⟨_, file⟩
        exact files_before ⟨List.prefix_append _ _, List.prefix_refl _⟩ file
      · rintro ⟨_, file⟩
        exact consistent.file_kept file
    rw [same] at failed
    rw [move_eq_put found stage_eq (Stage.step_notMade job input crew.layout content failed)]
    refine consistent.put_still found (.inr rfl) (fun _ _ => by rw [stage_eq]; rfl)
      (stands_of_unchanged (setting.alone_blocked planned between file)) fun _ => rfl

/-- An input that is done as if it were worked on alone has its directory. -/
theorem builds_alone (setting : Setting job layout before)
    (planned : Batch.plan job before input = .ok (some (content, fileName))) :
    (Stage.done (Batch.alone job layout before input).1).builds := by
  rw [Stage.builds, holds_alone setting planned]
  rfl

/-- An output is written to its place. -/
theorem Consistent.put_written (consistent : Consistent setting inputs schedule crew)
    (apart : Batch.Apart job layout before inputs) (found : inputs[index]? = some input)
    (planned : Batch.plan job before input = .ok (some (content, fileName)))
    (clear : before.Clear setting.base (setting.dir input))
    (there : crew.store.find? (setting.dir input) = some .directory)
    (holds : (crew.stages index).holds)
    (free : crew.store.find? (setting.place input fileName) ≠ some .directory) :
    Consistent setting inputs (schedule ++ [index])
      (crew.put index (.done (Batch.alone job layout before input).1) crew.layout
        (crew.store.insert (setting.place input fileName) (.file (Text.bytes content)))) := by
  have inserted (spot : List String) :
      (crew.store.insert (setting.place input fileName) (.file (Text.bytes content))).find? spot =
        if spot = setting.place input fileName then some (.file (Text.bytes content))
        else crew.store.find? spot :=
    FileStore.find?_insert (by simp [Setting.place]) _ _ _
  refine consistent.put found (.inr rfl)
    (fun _ _ => (holds_alone setting planned).trans holds.symm)
    (consistent.wellFormed.insert_file there free _) ⟨rfl, fun spot there => ?keeps⟩
    (.alone fun spot changed => ?changed)
    (fun other second spot different other_found finished changed left => ?kept)
    (fun _ => builds_alone setting planned) fun spot => ?origin
  case keeps =>
    have other : spot ≠ setting.place input fileName := fun same => free (same ▸ there)
    rw [inserted, if_neg other, there]
  case changed =>
    obtain ⟨_, _, other_planned, -, ⟨between, -, left⟩ | ⟨rfl, -, left⟩⟩ :=
      setting.changed changed
    · have other : spot ≠ setting.place input fileName := by
        rintro rfl
        exact FileStore.not_concat_prefix between.2
      rw [inserted, if_neg other, left, consistent.wellFormed.directory_between there between]
    · cases planned.symm.trans other_planned
      rw [inserted, if_pos rfl, left]
  case kept =>
    rw [inserted, if_neg, left]
    rintro rfl
    obtain ⟨_, _, other_planned, other_clear, ⟨between, missing, -⟩ | ⟨same, -, -⟩⟩ :=
      setting.changed changed
    all_goals
      have other_holds : (crew.stages other).holds := finished ▸ holds_alone setting other_planned
    · exact consistent.not_between apart (Ne.symm different) found other_found planned
        other_planned holds other_holds clear missing between
    · exact different (consistent.unique (holds_of_plan other_found other_planned other_holds)
        (holds_of_plan found planned holds)
        (setting.parts_eq_of_place_eq planned other_planned same).symm)
  case origin =>
    by_cases same : spot = setting.place input fileName
    · right
      have was : before.find? spot ≠ some .directory := fun was =>
        free (same ▸ consistent.keeps.2 spot was)
      refine ⟨builds_alone setting planned, ?_⟩
      rw [inserted, if_pos same, setting.find?_alone planned clear, if_pos ⟨same, was⟩]
    · left
      rw [inserted, if_neg same]

/-- The output is written, or a directory is in its place. -/
theorem Consistent.step_ready (consistent : Consistent setting inputs schedule crew)
    (apart : Batch.Apart job layout before inputs) (found : inputs[index]? = some input)
    (planned : Batch.plan job before input = .ok (some (content, fileName)))
    (clear : before.Clear setting.base (setting.dir input))
    (there : crew.store.find? (setting.dir input) = some .directory)
    (stage_eq : crew.stages index = .ready (layout.pathFor input fileName) content) :
    Consistent setting inputs (schedule ++ [index]) (crew.move job inputs index) := by
  have holds : (crew.stages index).holds := by rw [stage_eq]; rfl
  have alone_result := setting.alone_result planned clear
  have written := setting.written planned consistent.wellFormed consistent.keeps there
    (Text.bytes content)
  split at written
  · rename_i taken
    have was := consistent.directory_at_place apart found planned clear holds taken
    rw [if_pos was] at alone_result
    rw [move_eq_put found stage_eq (Stage.step_notWritten job input crew.layout written),
      ← alone_result]
    refine consistent.put_still found (.inr rfl)
      (fun _ _ => (holds_alone setting planned).trans holds.symm) (.alone fun spot changed => ?_)
      fun _ => builds_alone setting planned
    obtain ⟨_, _, other_planned, -, ⟨between, -, left⟩ | ⟨rfl, free, -⟩⟩ := setting.changed changed
    · rw [left, consistent.wellFormed.directory_between there between]
    · cases planned.symm.trans other_planned
      exact absurd was free
  · rename_i free
    have was : before.find? (setting.place input fileName) ≠ some .directory := fun was =>
      free (consistent.keeps.2 _ was)
    rw [if_neg was] at alone_result
    rw [move_eq_put found stage_eq (Stage.step_written job input crew.layout written),
      ← alone_result]
    exact consistent.put_written apart found planned clear there holds free

/-! ## Schedules -/

/-- A move on no input does nothing. -/
theorem Consistent.step_outside (consistent : Consistent setting inputs schedule crew)
    (outside : inputs[index]? = none) :
    Consistent setting inputs (schedule ++ [index]) (crew.move job inputs index) := by
  have same : crew.move job inputs index = crew := by rw [move, outside]
  have counts (other : Nat) (inside : other < inputs.length) :
      (schedule ++ [index]).count other = schedule.count other := by
    have different : index ≠ other := by
      have := List.getElem?_eq_none_iff.mp outside
      omega
    rw [List.count_append, List.count_singleton, if_neg (by simpa using different), Nat.add_zero]
  rw [same]
  exact { consistent with
    left := fun other inside => by
      rw [counts other inside]
      exact consistent.left other inside
    waits := fun other inside none => consistent.waits other inside (counts other inside ▸ none)
    first := fun held => (consistent.first held).append [index] }

/-- A move on an input that is done does nothing. -/
theorem Consistent.step_done (consistent : Consistent setting inputs schedule crew)
    (found : inputs[index]? = some input) {result : InputResult}
    (stage_eq : crew.stages index = .done result) :
    Consistent setting inputs (schedule ++ [index]) (crew.move job inputs index) := by
  rw [move_eq_put found stage_eq (Stage.step_done job input crew.layout crew.store result)]
  rw [← stage_eq]
  exact consistent.put_still found (.inr (by rw [stage_eq]; rfl)) (fun _ _ => rfl)
    (consistent.stands found) id

/-- Each move keeps what every schedule keeps. -/
theorem Consistent.step (consistent : Consistent setting inputs schedule crew)
    (apart : Batch.Apart job layout before inputs) (index : Nat) :
    Consistent setting inputs (schedule ++ [index]) (crew.move job inputs index) := by
  cases found : inputs[index]? with
  | none => exact consistent.step_outside found
  | some input =>
      have stands := consistent.stands found
      generalize stage_eq : crew.stages index = stage at stands
      cases stands with
      | waiting => exact consistent.step_waiting apart found stage_eq
      | asking planned => exact consistent.step_asking found planned stage_eq
      | placed planned => exact consistent.step_placed apart found planned stage_eq
      | ready planned clear there =>
          exact consistent.step_ready apart found planned clear there stage_eq
      | refused planned taken => exact consistent.step_done found stage_eq
      | alone changed => exact consistent.step_done found stage_eq

/-- After any schedule the crew is consistent. -/
theorem consistent_run (setting : Setting job layout before)
    (apart : Batch.Apart job layout before inputs) (schedule : List Nat) :
    Consistent setting inputs schedule
      (run job inputs ⟨before, layout, fun _ => .waiting⟩ schedule) := by
  induction schedule using List.reverseRecOn with
  | nil => exact consistent_start setting inputs
  | append_singleton schedule index induction =>
      rw [run, List.foldl_concat]
      exact induction.step apart index

end Crew

end IslandSlots
