import IslandSlots.Files.Store
import IslandSlots.Proofs.Path.Parts
import Mathlib.Data.List.Infix

/-!
# Files in directories

Everything that is in a store is in a directory. What an operation on a path does depends on what
is on the way of the path and on nothing else, and a directory that is made with those around it
changes nothing but the places on its way where nothing was.
-/

namespace IslandSlots

namespace FileStore

/-- A store in which everything is in a directory, and relative paths start in one. -/
structure WellFormed (store : FileStore) : Prop where
  /-- Around what is there is a directory. -/
  around (place : List String) (name : String) :
    store.find? (place ++ [name]) ≠ none → store.find? place = some .directory
  /-- Relative paths start in a directory. -/
  current : store.find? store.current = some .directory

/-- The places on the way of steps, from where they start to where they lead, whatever is there. -/
def way (store : FileStore) (steps : List PathPart) : List (List String) :=
  steps.scanl follow store.current

variable {store other : FileStore} {place other_place base dir : List String}
  {steps : List PathPart}

/-! ## What is at a place -/

/-- Without the entries of a place, those of another one are the same. -/
theorem lookup_filter_ne (entries : List (List String × FileEntry))
    (different : other_place ≠ place) :
    (entries.filter fun (at_place, _) => at_place != place).lookup other_place =
      entries.lookup other_place := by
  induction entries with
  | nil => rfl
  | cons entry entries induction =>
      obtain ⟨at_place, entry⟩ := entry
      by_cases same : at_place = place
      · subst same
        rw [List.filter_cons_of_neg (by simp), List.lookup_cons, beq_false_of_ne different,
          induction]
      · rw [List.filter_cons_of_pos (by simpa using same), List.lookup_cons, List.lookup_cons,
          induction]

theorem find?_insert (filled : place ≠ []) (store : FileStore) (entry : FileEntry)
    (other_place : List String) :
    (store.insert place entry).find? other_place =
      if other_place = place then some entry else store.find? other_place := by
  rw [find?, find?, insert]
  by_cases same : other_place = place
  · subst same
    rw [if_neg (by simpa using filled), if_pos rfl, List.lookup_cons_self]
  · rw [if_neg same, List.lookup_cons, beq_false_of_ne same, lookup_filter_ne _ same]

theorem find?_eq_none (filled : place ≠ []) :
    store.find? place = none ↔ ∀ entry ∈ store.entries, place ≠ entry.1 := by
  rw [find?, if_neg (by simpa using filled), List.lookup_eq_none_iff]
  simp only [bne_iff_ne]

/-- Everything is in a directory if the entries are. -/
theorem wellFormed_iff : store.WellFormed ↔
    (∀ entry ∈ store.entries, entry.1 ≠ [] → store.find? entry.1.dropLast = some .directory) ∧
      store.find? store.current = some .directory := by
  constructor
  · refine fun wellFormed => ⟨fun entry member filled => ?_, wellFormed.current⟩
    obtain ⟨place, name, split⟩ := (List.eq_nil_or_concat entry.1).resolve_left filled
    rw [List.concat_eq_append] at split
    rw [split, List.dropLast_concat]
    refine wellFormed.around place name fun missing => ?_
    exact (find?_eq_none (by simp)).mp missing entry member split.symm
  · refine fun ⟨around, current⟩ => ⟨fun place name there => ?_, current⟩
    by_contra missing
    refine there ((find?_eq_none (by simp)).mpr fun entry member split => missing ?_)
    have above := around entry member (by simp [← split])
    rwa [← split, List.dropLast_concat] at above

instance (store : FileStore) : Decidable store.WellFormed :=
  decidable_of_iff _ wellFormed_iff.symm

instance (entry : Option FileEntry) : Decidable (∀ bytes, entry ≠ some (.file bytes)) :=
  match entry with
  | none | some .directory => isTrue nofun
  | some (.file bytes) => isFalse fun none_of => none_of bytes rfl

/-- Above what is there are directories. -/
theorem WellFormed.directory_of_prefix (wellFormed : store.WellFormed) {above : List String}
    (there : store.find? place ≠ none) (within : above <+: place) (inside : above ≠ place) :
    store.find? above = some .directory := by
  obtain ⟨names, rfl⟩ := within
  induction names using List.reverseRecOn with
  | nil => exact absurd (List.append_nil above).symm inside
  | append_singleton names name induction =>
      rw [← List.append_assoc] at there
      have around := wellFormed.around _ name there
      by_cases last : names = []
      · rwa [last, List.append_nil] at around
      · exact induction (by simp [around]) (by simpa using last)

/-- Below a place where nothing is there is nothing. -/
theorem WellFormed.missing_below (wellFormed : store.WellFormed) {above : List String}
    (missing : store.find? above = none) (within : above <+: place) : store.find? place = none := by
  by_contra there
  by_cases same : above = place
  · exact there (same ▸ missing)
  · rw [wellFormed.directory_of_prefix there within same] at missing
    cases missing

/-! ## Ways -/

/-- A walk depends on what is on the way. -/
theorem walk_congr {start : List String}
    (same : ∀ place ∈ steps.scanl follow start, store.find? place = other.find? place) :
    store.walk start steps = other.walk start steps := by
  induction steps generalizing start with
  | nil => rfl
  | cons step rest induction =>
      rw [List.scanl_cons, List.forall_mem_cons] at same
      rw [walk, walk, same.1, induction same.2]

/-- A walk that ends is at the end of the way. -/
theorem mem_way_of_walk {start : List String} (walked : store.walk start steps = .ok place) :
    place ∈ steps.scanl follow start := by
  induction steps generalizing start with
  | nil =>
      rw [walk, Except.ok.injEq] at walked
      exact walked ▸ List.mem_singleton_self start
  | cons step rest induction =>
      rw [walk] at walked
      split at walked <;> [skip; cases walked; cases walked]
      rw [List.scanl_cons]
      exact List.mem_cons_of_mem start (induction walked)

/-- What is read of a path depends on what is on its way. -/
theorem read_congr {path : Path} (start : store.current = other.current)
    (same : ∀ place ∈ store.way path.steps, store.find? place = other.find? place) :
    store.read path = other.read path := by
  rw [read, read, resolve, resolve, ← start, ← walk_congr same]
  split
  · rfl
  · cases walked : store.walk store.current path.steps with
    | error error => rfl
    | ok place =>
        have there := same place (mem_way_of_walk walked)
        simp only [bind, Except.bind, there]

theorem walk_append (store : FileStore) (start : List String) (front back : List PathPart) :
    store.walk start (front ++ back) =
      store.walk start front >>= fun place => store.walk place back := by
  induction front generalizing start with
  | nil => rfl
  | cons step front induction =>
      rw [List.cons_append, walk, walk]
      split <;> [exact induction _; rfl; rfl]

/-- A dot before other steps changes nothing about a walk. -/
theorem walk_here {start : List String} (filled : steps ≠ []) :
    store.walk start (.here :: steps) = store.walk start steps := by
  obtain ⟨step, rest, rfl⟩ := List.exists_cons_of_ne_nil filled
  rw [walk, follow, walk]
  split <;> simp_all

/-- The dots of steps change nothing about a walk that does not end with one. -/
theorem walk_counted {start : List String} (ends : steps.getLast? ≠ some .here) :
    store.walk start (Path.counted steps) = store.walk start steps := by
  induction steps generalizing start with
  | nil => rfl
  | cons step rest induction =>
      cases rest with
      | nil =>
          rw [Path.counted, List.filter_cons_of_pos (by simpa using ends)]
          rfl
      | cons next rest =>
          rw [List.getLast?_cons_cons] at ends
          by_cases dot : step = .here
          · rw [dot, walk_here (List.cons_ne_nil next rest), ← induction ends]
            rfl
          · rw [Path.counted, List.filter_cons_of_pos (by simpa using dot), walk, walk]
            split <;> [exact induction ends; rfl; rfl]

/-! ## Ways through names -/

/-- No place is on the way to the one around it. -/
theorem not_concat_prefix {name : String} : ¬ place ++ [name] <+: place := by
  intro within
  have := within.length_le
  rw [List.length_append, List.length_singleton] at this
  omega

/-- A place on the way from a directory down to another place. -/
def Between (base dir place : List String) : Prop :=
  base <+: place ∧ place <+: dir

instance : Decidable (Between base dir place) :=
  inferInstanceAs (Decidable (_ ∧ _))

/-- No file is on the way from a directory down to a place. -/
def Clear (store : FileStore) (base dir : List String) : Prop :=
  ∀ place, Between base dir place → ∀ bytes, store.find? place ≠ some (.file bytes)

/-- Where a file is on the way there is one to be found. -/
theorem exists_file_of_not_clear (unclear : ¬ store.Clear base dir) :
    ∃ place bytes, Between base dir place ∧ store.find? place = some (.file bytes) := by
  rw [Clear] at unclear
  push Not at unclear
  obtain ⟨place, between, bytes, file⟩ := unclear
  exact ⟨place, bytes, between, file⟩

/-- At the end of a way without files is a directory, or there is nothing. -/
theorem Clear.missing (clear : store.Clear base dir) (below : base <+: dir)
    (free : store.find? dir ≠ some .directory) : store.find? dir = none := by
  cases found : store.find? dir with
  | none => rfl
  | some entry =>
      cases entry with
      | directory => exact absurd found free
      | file bytes => exact absurd found (clear dir ⟨below, List.prefix_refl dir⟩ bytes)

/-- Steps that lead to a directory that is there. -/
def Leads (store : FileStore) (steps : List PathPart) (base : List String) : Prop :=
  store.walk store.current steps = .ok base ∧ store.find? base = some .directory

theorem walk_names (wellFormed : store.WellFormed) {names : List String}
    (there : store.find? (base ++ names) = some .directory) :
    store.walk base (names.map .name) = .ok (base ++ names) := by
  induction names generalizing base with
  | nil => rw [List.append_nil]; rfl
  | cons name names induction =>
      have above : store.find? base = some .directory :=
        wellFormed.directory_of_prefix (there ▸ Option.some_ne_none _) (List.prefix_append base _)
          (by simp)
      rw [List.append_cons] at there ⊢
      rw [List.map_cons, walk, above]
      exact induction there

/-- No step leads away from a file. -/
theorem walk_file {bytes : List UInt8} (file : store.find? place = some (.file bytes))
    (filled : steps ≠ []) : store.walk place steps = .error .notDirectory := by
  obtain ⟨step, rest, rfl⟩ := List.exists_cons_of_ne_nil filled
  rw [walk, file]

/-- No step leads away from a place where nothing is. -/
theorem walk_nothing (nothing : store.find? place = none) (filled : steps ≠ []) :
    store.walk place steps = .error .missing := by
  obtain ⟨step, rest, rfl⟩ := List.exists_cons_of_ne_nil filled
  rw [walk, nothing]

theorem walk_down {name : String} (start : store.find? base = some .directory)
    (steps : List PathPart) :
    store.walk base (.name name :: steps) = store.walk (base ++ [name]) steps := by
  rw [walk, start]
  rfl

/-- Behind a file on the way no walk goes on. -/
theorem walk_blocked (wellFormed : store.WellFormed) {names : List String}
    (start : store.find? base = some .directory) {bytes : List UInt8}
    (between : Between base (base ++ names) place) (file : store.find? place = some (.file bytes))
    (last : PathPart) :
    store.walk base (names.map .name ++ [last]) = .error .notDirectory := by
  obtain ⟨⟨taken, rfl⟩, within⟩ := between
  rw [List.prefix_append_right_inj] at within
  induction names generalizing base taken with
  | nil =>
      rw [List.prefix_nil.mp within, List.append_nil, start] at file
      cases file
  | cons name names induction =>
      rw [List.map_cons, List.cons_append, walk_down start]
      cases taken with
      | nil =>
          rw [List.append_nil, start] at file
          cases file
      | cons first taken =>
          obtain ⟨rfl, later⟩ := List.cons_prefix_cons.mp within
          rw [List.append_cons] at file
          by_cases here : taken = []
          · rw [here, List.append_nil] at file
            exact walk_file file (by simp)
          · have there : store.find? (base ++ [first]) = some .directory :=
              wellFormed.directory_of_prefix (file ▸ Option.some_ne_none _)
                (List.prefix_append (base ++ [first]) taken) (by simpa using here)
            exact induction there taken file later

/-- No walk goes through a place where nothing is. -/
theorem walk_missing {names : List String} (start : store.find? base = some .directory)
    (clear : store.Clear base (base ++ names))
    (missing : store.find? (base ++ names) ≠ some .directory) (last : PathPart) :
    store.walk base (names.map .name ++ [last]) = .error .missing := by
  induction names generalizing base with
  | nil => exact absurd start (List.append_nil base ▸ missing)
  | cons name names induction =>
      rw [List.append_cons] at clear missing
      rw [List.map_cons, List.cons_append, walk_down start]
      cases there : store.find? (base ++ [name]) with
      | none => exact walk_nothing there (by simp)
      | some entry =>
          cases entry with
          | directory =>
              exact induction there (fun place between =>
                clear place ⟨(List.prefix_append base [name]).trans between.1, between.2⟩) missing
          | file bytes =>
              exact absurd there
                (clear _ ⟨List.prefix_append base [name], List.prefix_append _ _⟩ bytes)

/-- The places from a directory down through names are on the way of steps that lead there. -/
theorem mem_scanl_of_walk {start : List String} {names taken : List String}
    (walked : store.walk start steps = .ok base) (within : taken <+: names) (rest : List PathPart) :
    base ++ taken ∈ (steps ++ names.map PathPart.name ++ rest).scanl follow start := by
  induction steps generalizing start with
  | nil =>
      obtain rfl := Except.ok.inj walked
      induction names generalizing start taken with
      | nil =>
          rw [List.prefix_nil.mp within, List.append_nil]
          cases rest <;> simp
      | cons name names induction =>
          cases taken with
          | nil => simp
          | cons first taken =>
              obtain ⟨rfl, later⟩ := List.cons_prefix_cons.mp within
              rw [List.append_cons, List.nil_append, List.map_cons, List.cons_append, List.scanl_cons]
              exact List.mem_cons_of_mem _ (induction later rfl)
  | cons step steps induction =>
      rw [walk] at walked
      split at walked <;> [skip; cases walked; cases walked]
      rw [List.cons_append, List.cons_append, List.scanl_cons]
      exact List.mem_cons_of_mem _ (induction walked)

/-! ## Directories made with those around them -/

/-- What is wrong where a file is on the way to a directory. -/
def blocking (store : FileStore) (dir : List String) : FileError :=
  match store.find? dir with
  | some (.file _) => .taken
  | _ => .notDirectory

theorem blocking_congr (same : (∃ bytes, store.find? dir = some (.file bytes)) ↔
    ∃ bytes, other.find? dir = some (.file bytes)) : store.blocking dir = other.blocking dir := by
  rw [blocking, blocking]
  split <;> split <;> simp_all

/-- A store with a directory, and those on the way to it, besides what another store has. -/
structure Made (store : FileStore) (base dir : List String) (made : FileStore) : Prop where
  /-- Relative paths start at the same place. -/
  current : made.current = store.current
  /-- The places on the way are directories, and the others are as they were. -/
  find? (place : List String) : made.find? place =
    if Between base dir place then some .directory else store.find? place

/-- What another store has in addition is no reason for a directory to be gone. -/
def Keeps (store later : FileStore) : Prop :=
  later.current = store.current ∧
    ∀ place, store.find? place = some .directory → later.find? place = some .directory

variable {later made : FileStore} {names : List String}

theorem walk_keeps {start : List String} (keeps : store.Keeps later)
    (walked : store.walk start steps = .ok place) : later.walk start steps = .ok place := by
  induction steps generalizing start with
  | nil => exact walked
  | cons step rest induction =>
      rw [walk] at walked
      split at walked <;> [skip; cases walked; cases walked]
      rename_i there
      rw [walk, keeps.2 start there]
      exact induction walked

theorem Leads.keeps (leads : store.Leads steps base) (keeps : store.Keeps later) :
    later.Leads steps base := by
  rw [Leads, keeps.1]
  exact ⟨walk_keeps keeps leads.1, keeps.2 base leads.2⟩

theorem Made.there (laid : Made store base (base ++ names) made) :
    made.find? (base ++ names) = some .directory := by
  rw [laid.find?, if_pos ⟨List.prefix_append base names, List.prefix_refl _⟩]

theorem Made.keeps (laid : Made store base dir made) : store.Keeps made := by
  refine ⟨laid.current, fun place there => ?_⟩
  rw [laid.find?, there, ite_self]

theorem Made.wellFormed (laid : Made store base dir made) (wellFormed : store.WellFormed)
    (start : store.find? base = some .directory) : made.WellFormed where
  around place name there := by
    rw [laid.find?] at there
    by_cases between : Between base dir (place ++ [name])
    · obtain ⟨below, above⟩ := between
      obtain same | inside := List.prefix_concat_iff.mp below
      · exact laid.keeps.2 place (wellFormed.around place name (by rw [← same, start]; simp))
      · rw [laid.find?, if_pos ⟨inside, (List.prefix_append place [name]).trans above⟩]
    · rw [if_neg between] at there
      exact laid.keeps.2 place (wellFormed.around place name there)
  current := laid.current ▸ laid.keeps.2 _ wellFormed.current

/-- The steps of a directory that is there lead to it with names behind them. -/
theorem Leads.resolve (leads : store.Leads steps base) (wellFormed : store.WellFormed)
    (there : store.find? (base ++ names) = some .directory) (last : String) :
    store.resolve (steps ++ names.map PathPart.name ++ [.name last]) =
      .ok (base ++ names ++ [last]) := by
  rw [FileStore.resolve, if_neg (by simp), List.append_assoc, walk_append, leads.1]
  change store.walk base _ = _
  rw [walk_append, walk_names wellFormed there]
  exact walk_down there []

theorem Leads.resolve_blocked (leads : store.Leads steps base) (wellFormed : store.WellFormed)
    {bytes : List UInt8} (between : Between base (base ++ names) place)
    (file : store.find? place = some (.file bytes)) (last : String) :
    store.resolve (steps ++ names.map PathPart.name ++ [.name last]) = .error .notDirectory := by
  rw [FileStore.resolve, if_neg (by simp), List.append_assoc, walk_append, leads.1]
  exact walk_blocked wellFormed leads.2 between file _

theorem Leads.resolve_missing (leads : store.Leads steps base)
    (clear : store.Clear base (base ++ names))
    (missing : store.find? (base ++ names) ≠ some .directory) (last : String) :
    store.resolve (steps ++ names.map PathPart.name ++ [.name last]) = .error .missing := by
  rw [FileStore.resolve, if_neg (by simp), List.append_assoc, walk_append, leads.1]
  exact walk_missing leads.2 clear missing _

/-- Makes one directory unless it is there, the store being as it was if that fails. -/
def settle (store : FileStore) (steps : List PathPart) : Except FileError Unit × FileStore :=
  match store.ensureDirectory steps with
  | .ok made => (.ok (), made)
  | .error error => (.error error, store)

theorem makeBackwards_cons (last : PathPart) (outer : List PathPart)
    (there : store.makeDirectory (outer.reverse ++ [last]) ≠ .error .missing) :
    store.makeBackwards (last :: outer) = store.settle (outer.reverse ++ [last]) := by
  rw [makeBackwards, List.reverse_cons]
  split
  · rename_i missing
    exact absurd missing there
  · rfl

theorem makeBackwards_cons_missing (last : PathPart) (outer : List PathPart)
    (missing : store.makeDirectory (outer.reverse ++ [last]) = .error .missing)
    (around : store.makeBackwards outer = (.ok (), made)) :
    store.makeBackwards (last :: outer) = made.settle (outer.reverse ++ [last]) := by
  rw [makeBackwards, List.reverse_cons, missing]
  simp only [around]
  rfl

theorem makeDirectory_of_resolve (resolved : store.resolve steps = .ok place) :
    store.makeDirectory steps =
      if store.find? place = none then .ok (store.insert place .directory) else .error .taken := by
  simp only [makeDirectory, resolved, bind, Except.bind]
  cases store.find? place with
  | none => rw [if_pos rfl]
  | some entry => rw [if_neg (Option.some_ne_none entry)]

theorem settle_missing (resolved : store.resolve steps = .ok place)
    (missing : store.find? place = none) :
    store.settle steps = (.ok (), store.insert place .directory) := by
  rw [settle, ensureDirectory, makeDirectory_of_resolve resolved, if_pos missing]

theorem settle_directory (resolved : store.resolve steps = .ok place)
    (there : store.find? place = some .directory) : store.settle steps = (.ok (), store) := by
  rw [settle, ensureDirectory, makeDirectory_of_resolve resolved, if_neg (by simp [there]),
    isDirectory, resolved]
  simp only [there, decide_true, if_true]

theorem settle_file (resolved : store.resolve steps = .ok place) {bytes : List UInt8}
    (file : store.find? place = some (.file bytes)) :
    store.settle steps = (.error .taken, store) := by
  rw [settle, ensureDirectory, makeDirectory_of_resolve resolved, if_neg (by simp [file]),
    isDirectory, resolved]
  simp only [file]
  rfl

theorem settle_blocked {error : FileError} (resolved : store.resolve steps = .error error) :
    store.settle steps = (.error error, store) := by
  rw [settle, ensureDirectory, makeDirectory, isDirectory, resolved]
  rfl

/-- One more directory behind those that are made. -/
theorem Made.insert (laid : Made store base dir made) {name : String}
    (below : base <+: dir) :
    Made store base (dir ++ [name]) (made.insert (dir ++ [name]) .directory) where
  current := laid.current
  find? place := by
    rw [find?_insert (by simp), laid.find?]
    by_cases last : place = dir ++ [name]
    · rw [if_pos last, if_pos ⟨last ▸ below.trans (List.prefix_append dir [name]),
        last ▸ List.prefix_refl _⟩]
    · rw [if_neg last]
      have same : Between base (dir ++ [name]) place ↔ Between base dir place := by
        rw [Between, Between, List.prefix_concat_iff]
        exact and_congr_right fun _ => or_iff_right last
      simp only [same]

/-- On the way to a directory are directories. -/
theorem WellFormed.directory_between (wellFormed : store.WellFormed)
    (there : store.find? dir = some .directory) (between : Between base dir place) :
    store.find? place = some .directory := by
  by_cases last : place = dir
  · rw [last, there]
  · exact wellFormed.directory_of_prefix (there ▸ Option.some_ne_none _) between.2 last

/-- Where the way is all directories, they are made already. -/
theorem made_of_directory (base : List String) (wellFormed : store.WellFormed)
    (there : store.find? dir = some .directory) : Made store base dir store where
  current := rfl
  find? place := by
    split
    · exact wellFormed.directory_between there (by assumption)
    · rfl

theorem resolve_of_leads (leads : store.Leads steps base) (filled : steps ≠ []) :
    store.resolve steps = .ok base := by
  rw [resolve, if_neg (by simpa using filled), leads.1]

theorem makeBackwards_concat (last : PathPart)
    (there : store.makeDirectory (steps ++ [last]) ≠ .error .missing) :
    store.makeBackwards (steps ++ [last]).reverse = store.settle (steps ++ [last]) := by
  rw [List.reverse_concat, makeBackwards_cons, List.reverse_reverse]
  rwa [List.reverse_reverse]

/-- Steps to a directory that is there make nothing. -/
theorem makeBackwards_of_leads (leads : store.Leads steps base) :
    store.makeBackwards steps.reverse = (.ok (), store) := by
  cases steps using List.reverseRecOn with
  | nil => rfl
  | append_singleton steps last =>
      have resolved := resolve_of_leads leads (by simp)
      rw [makeBackwards_concat, settle_directory resolved leads.2]
      rw [makeDirectory_of_resolve resolved, if_neg (by simp [leads.2])]
      simp

/-- A directory is made in one that is there, unless it is there itself. -/
theorem makeBackwards_inside (wellFormed : store.WellFormed) (leads : store.Leads steps base)
    (around : store.find? (base ++ names) = some .directory) {name : String}
    (clear : store.Clear base (base ++ names ++ [name])) :
    ∃ made, store.makeBackwards (steps ++ names.map PathPart.name ++ [PathPart.name name]).reverse =
        (.ok (), made) ∧
      Made store base (base ++ names ++ [name]) made := by
  have resolved := leads.resolve wellFormed around name
  have unless_missing : store.makeDirectory
      (steps ++ names.map PathPart.name ++ [.name name]) ≠ .error .missing := by
    rw [makeDirectory_of_resolve resolved]
    split <;> simp
  rw [makeBackwards_concat _ unless_missing]
  by_cases there : store.find? (base ++ names ++ [name]) = some .directory
  · exact ⟨_, settle_directory resolved there, made_of_directory base wellFormed there⟩
  · have missing := clear.missing (List.append_assoc .. ▸ List.prefix_append base _) there
    exact ⟨_, settle_missing resolved missing,
      (made_of_directory base wellFormed around).insert (List.prefix_append base names)⟩

/-- A directory is made after those around it if these are not there. -/
theorem makeBackwards_outside (wellFormed : store.WellFormed) (leads : store.Leads steps base)
    (clear : store.Clear base (base ++ names))
    (absent : store.find? (base ++ names) ≠ some .directory)
    (around : store.makeBackwards (steps ++ names.map PathPart.name).reverse = (.ok (), made))
    (laid : Made store base (base ++ names) made) (name : String) :
    store.makeBackwards (steps ++ names.map PathPart.name ++ [PathPart.name name]).reverse =
      (.ok (), made.insert (base ++ names ++ [name]) .directory) := by
  have missing : store.makeDirectory (steps ++ names.map PathPart.name ++ [.name name]) =
      .error .missing := by
    rw [makeDirectory, leads.resolve_missing clear absent name]
    rfl
  have nothing : made.find? (base ++ names ++ [name]) = none := by
    rw [laid.find?, if_neg fun between => not_concat_prefix between.2]
    exact wellFormed.missing_below (clear.missing (List.prefix_append base names) absent)
      (List.prefix_append _ [name])
  have resolved := (leads.keeps laid.keeps).resolve
    (laid.wellFormed wellFormed leads.2) laid.there name
  rw [List.reverse_concat, makeBackwards_cons_missing _ _ _ around, List.reverse_reverse]
  · exact settle_missing resolved nothing
  · rwa [List.reverse_reverse]

/-- A directory is made with those around it if no file is on the way. -/
theorem makeBackwards_clear (wellFormed : store.WellFormed) (leads : store.Leads steps base)
    (clear : store.Clear base (base ++ names)) :
    ∃ made, store.makeBackwards (steps ++ names.map PathPart.name).reverse = (.ok (), made) ∧
      Made store base (base ++ names) made := by
  induction names using List.reverseRecOn with
  | nil =>
      rw [List.map_nil, List.append_nil, List.append_nil]
      exact ⟨store, makeBackwards_of_leads leads, made_of_directory base wellFormed leads.2⟩
  | append_singleton names name induction =>
      rw [← List.append_assoc] at clear ⊢
      rw [List.map_append, List.map_singleton, ← List.append_assoc]
      have inner_clear : store.Clear base (base ++ names) := fun place between =>
        clear place ⟨between.1, between.2.trans (List.prefix_append _ [name])⟩
      by_cases there : store.find? (base ++ names) = some .directory
      · exact makeBackwards_inside wellFormed leads there clear
      · obtain ⟨made, around, laid⟩ := induction inner_clear
        exact ⟨_, makeBackwards_outside wellFormed leads inner_clear there around laid name,
          laid.insert (List.prefix_append base names)⟩

/-- A directory is not made if a file is on the way, and neither are those around it. -/
theorem makeBackwards_blocked (wellFormed : store.WellFormed) (leads : store.Leads steps base)
    {bytes : List UInt8} (between : Between base (base ++ names) place)
    (file : store.find? place = some (.file bytes)) :
    store.makeBackwards (steps ++ names.map PathPart.name).reverse =
      (.error (store.blocking (base ++ names)), store) := by
  cases names using List.reverseRecOn with
  | nil =>
      rw [List.append_nil] at between
      have same := between.1.eq_of_length (Nat.le_antisymm between.1.length_le between.2.length_le)
      rw [← same, leads.2] at file
      cases file
  | append_singleton names name =>
      rw [← List.append_assoc] at between ⊢
      rw [List.map_append, List.map_singleton, ← List.append_assoc]
      have filled : store.find? place ≠ none := file ▸ Option.some_ne_none _
      obtain rfl | inner := List.prefix_concat_iff.mp between.2
      · have resolved := leads.resolve wellFormed (wellFormed.around _ name filled) name
        rw [makeBackwards_concat, settle_file resolved file, blocking, file]
        rw [makeDirectory_of_resolve resolved, if_neg filled]
        simp
      · have resolved := leads.resolve_blocked wellFormed ⟨between.1, inner⟩ file name
        have absent : store.find? (base ++ names ++ [name]) = none := by
          by_contra there
          have higher : place ≠ base ++ names ++ [name] :=
            fun same => not_concat_prefix (same ▸ inner)
          rw [wellFormed.directory_of_prefix there between.2 higher] at file
          cases file
        rw [makeBackwards_concat, settle_blocked resolved, blocking, absent]
        rw [makeDirectory, resolved]
        simp [bind, Except.bind]

/-! ## Files written into directories -/

/-- A file is written into a directory that is there, unless it is a directory itself. -/
theorem write_of_resolve {path : Path} (resolved : store.resolve path.steps = .ok place)
    (bytes : List UInt8) : store.write path bytes =
      if store.find? place = some .directory then .error .isDirectory
      else .ok (store.insert place (.file bytes)) := by
  simp only [write, resolved, bind, Except.bind]
  split
  · rw [if_pos ‹_›]
  · rw [if_neg ‹_›]

theorem WellFormed.insert_file (wellFormed : store.WellFormed) {name : String}
    (around : store.find? dir = some .directory)
    (free : store.find? (dir ++ [name]) ≠ some .directory) (bytes : List UInt8) :
    (store.insert (dir ++ [name]) (.file bytes)).WellFormed where
  around place last there := by
    rw [find?_insert (by simp)] at there ⊢
    have above : store.find? place = some .directory := by
      by_cases same : place ++ [last] = dir ++ [name]
      · rw [List.append_inj_left' same rfl, around]
      · rw [if_neg same] at there
        exact wellFormed.around place last there
    have other : place ≠ dir ++ [name] := fun same => free (same ▸ above)
    rw [if_neg other, above]
  current := by
    have other : store.current ≠ dir ++ [name] := fun same => free (same ▸ wellFormed.current)
    rw [find?_insert (by simp)]
    exact (if_neg other).trans wellFormed.current

end FileStore

end IslandSlots
