import IslandSlots.Proofs.Batch.Interleaving

/-!
# What becomes of a batch

Once all moves on the inputs are made, each input has ended as if it were worked on alone, but of
the inputs whose outputs have one path all but the one that asked first. So all schedules in which
the same inputs ask first come to one report and to the same files.
-/

namespace IslandSlots

variable {job : Job} {layout : Layout} {before : FileStore} {inputs : List Path}
  {schedule : List Nat} {crew : Crew} {setting : Setting job layout before} {index : Nat}
  {input output : Path}

namespace Crew

/-- A schedule with two moves of an index has a second one. -/
theorem exists_second_of_count (twice : 2 ≤ schedule.count index) :
    ∃ front back, schedule = front ++ index :: back ∧ front.count index = 1 := by
  obtain ⟨front, rest, rfl, earlier⟩ :=
    List.eq_append_cons_of_mem (List.count_pos_iff.mp (by omega : 0 < schedule.count index))
  rw [List.count_append, List.count_eq_zero.mpr earlier, List.count_cons_self] at twice
  obtain ⟨middle, back, rfl, between⟩ :=
    List.eq_append_cons_of_mem (List.count_pos_iff.mp (by omega : 0 < rest.count index))
  refine ⟨front ++ index :: middle, back, by simp, ?_⟩
  rw [List.count_append, List.count_eq_zero.mpr earlier, List.count_cons_self,
    List.count_eq_zero.mpr between]

/-- What becomes of a batch: an input ends as if it were worked on alone, unless another one asks
before it for the place of its output, and the files are what the inputs that have a place make of
them. -/
structure Settled (job : Job) (layout : Layout) (before : FileStore) (inputs : List Path)
    (schedule : List Nat) (crew : Crew) : Prop where
  /-- Of the inputs whose outputs go to one place, exactly one asks first. -/
  one {index : Nat} {input output : Path} : inputs[index]? = some input →
    Batch.outputPath? job layout before input = some output →
    ∃! first, Batch.Rivals job layout before inputs index first ∧
      Batch.AsksFirst job layout before inputs schedule first
  /-- An input that asks first, or has no output, ends as if it were worked on alone. -/
  alone {index : Nat} {input : Path} : inputs[index]? = some input →
    (Batch.outputPath? job layout before input = none ∨
      Batch.AsksFirst job layout before inputs schedule index) →
    crew.stages index = .done (Batch.alone job layout before input).1
  /-- The others fail because of their place. -/
  refused {index : Nat} {input output : Path} : inputs[index]? = some input →
    Batch.outputPath? job layout before input = some output →
    ¬ Batch.AsksFirst job layout before inputs schedule index →
    crew.stages index = .done (.error (.collision ⟨output⟩))
  /-- What an input that asks first changes alone is changed in the same way. -/
  changed {index : Nat} {input : Path} {spot : List String} : inputs[index]? = some input →
    Batch.AsksFirst job layout before inputs schedule index →
    (Batch.alone job layout before input).2.find? spot ≠ before.find? spot →
    crew.store.find? spot = (Batch.alone job layout before input).2.find? spot
  /-- What none of them changes alone is as it was. -/
  kept {spot : List String} : (∀ index input, inputs[index]? = some input →
      Batch.AsksFirst job layout before inputs schedule index →
      (Batch.alone job layout before input).2.find? spot = before.find? spot) →
    crew.store.find? spot = before.find? spot

/-- An input all of whose moves are made is done. -/
theorem Consistent.done (consistent : Consistent setting inputs schedule crew)
    (complete : ∀ index < inputs.length, 4 ≤ schedule.count index)
    (found : inputs[index]? = some input) : (crew.stages index).left = 0 := by
  have inside := (List.getElem?_eq_some_iff.mp found).1
  have enough := complete index inside
  obtain done | moves := consistent.left index inside
  · exact done
  · omega

/-- After a complete schedule an input with an output has its place and is done as if alone, or it
is refused and the place is given out to a rival. -/
theorem Consistent.done_or_refused (consistent : Consistent setting inputs schedule crew)
    (complete : ∀ index < inputs.length, 4 ≤ schedule.count index)
    (found : inputs[index]? = some input)
    (has : Batch.outputPath? job layout before input = some output) :
    Batch.AsksFirst job layout before inputs schedule index ∧
        crew.stages index = .done (Batch.alone job layout before input).1 ∨
      crew.stages index = .done (.error (.collision ⟨output⟩)) ∧ ∃ rival ≠ index,
        Batch.Rivals job layout before inputs index rival ∧
          Batch.AsksFirst job layout before inputs schedule rival := by
  have finished := consistent.done complete found
  have stands := consistent.stands found
  generalize stage_eq : crew.stages index = stage at stands finished
  cases stands with
  | waiting | asking | placed | ready => cases finished
  | alone changed =>
      obtain ⟨content, fileName, planned, -⟩ := Batch.outputPath?_eq_some.mp has
      have holds : (crew.stages index).holds := stage_eq ▸ holds_alone setting planned
      exact .inl ⟨consistent.first (holds_of_plan found planned holds), rfl⟩
  | refused planned taken =>
      obtain rfl := Option.some.inj (has.symm.trans (Batch.outputPath?_of_plan planned))
      obtain ⟨rival, output, held, same⟩ := (consistent.claimed _).mp taken
      obtain ⟨second, rival_found, rival_has⟩ := Option.bind_eq_some_iff.mp held.has
      refine .inr ⟨rfl, rival, ?_, ?_, consistent.first held⟩
      · rintro rfl
        have := held.holds
        rw [stage_eq] at this
        cases this
      · exact ⟨input, second, _, output, found, rival_found, has, rival_has, same.symm⟩

theorem Consistent.settled (consistent : Consistent setting inputs schedule crew)
    (complete : ∀ index < inputs.length, 4 ≤ schedule.count index) :
    Settled job layout before inputs schedule crew where
  one {index input output} found has := by
    obtain ⟨first, -⟩ | ⟨-, rival, -, rivals, first⟩ :=
      consistent.done_or_refused complete found has
    · exact ⟨index, ⟨⟨input, input, output, output, found, found, has, has, rfl⟩, first⟩,
        fun other ⟨rivals, other_first⟩ => (first.unique other_first rivals).symm⟩
    · exact ⟨rival, ⟨rivals, first⟩, fun other ⟨other_rivals, other_first⟩ =>
        (first.unique other_first (rivals.symm.trans other_rivals)).symm⟩
  alone {index input} found how := by
    cases has : Batch.outputPath? job layout before input with
    | none =>
        have finished := consistent.done complete found
        have stands := consistent.stands found
        generalize crew.stages index = stage at stands finished
        cases stands with
        | waiting | asking | placed | ready => cases finished
        | alone => rfl
        | refused planned => cases has.symm.trans (Batch.outputPath?_of_plan planned)
    | some output =>
        obtain ⟨-, done⟩ | ⟨-, rival, different, rivals, first⟩ :=
          consistent.done_or_refused complete found has
        · exact done
        · have asks := how.resolve_left (by simp [has])
          exact absurd (asks.unique first rivals).symm different
  refused {index input output} found has not_first := by
    obtain ⟨first, -⟩ | ⟨refused, -⟩ := consistent.done_or_refused complete found has
    · exact absurd first not_first
    · exact refused
  changed {index input spot} found first changed := by
    obtain ⟨content, fileName, planned, -⟩ := setting.changed changed
    have has : Batch.outputPath? job layout before input = some (layout.pathFor input fileName) :=
      Batch.outputPath?_of_plan planned
    have finished := consistent.done complete found
    have stands := consistent.stands found
    obtain ⟨-, done⟩ | ⟨-, rival, different, rivals, other_first⟩ :=
      consistent.done_or_refused complete found has
    · have holds := holds_alone setting planned
      rw [← done] at holds
      generalize crew.stages index = stage at stands finished holds
      cases stands with
      | waiting | asking | placed | ready => cases finished
      | alone left => exact left spot changed
      | refused => cases holds
    · exact absurd (first.unique other_first rivals).symm different
  kept {spot} unchanged := by
    obtain same | ⟨index, input, found, builds, left⟩ := consistent.origin spot
    · exact same
    · by_contra changed
      rw [left] at changed
      obtain ⟨content, fileName, planned, -⟩ := setting.changed changed
      exact changed (unchanged index input found
        (consistent.first (holds_of_plan found planned (holds_of_builds builds))))

/-- Inputs whose outputs go nowhere else ask first, whatever the schedule. -/
theorem asksFirst_of_lonely (twice : 2 ≤ schedule.count index)
    (lonely : ∀ rival, Batch.Rivals job layout before inputs index rival → rival = index) :
    Batch.AsksFirst job layout before inputs schedule index := by
  obtain ⟨front, back, split, once⟩ := exists_second_of_count twice
  exact ⟨front, back, split, once, fun rival rivals different =>
    absurd (lonely rival rivals) different⟩

/-- Batches that are settled with the same inputs asking first have the same report and the same
files. -/
theorem Settled.eq {other : List Nat} {second : Crew}
    (settled : Settled job layout before inputs schedule crew)
    (other_settled : Settled job layout before inputs other second)
    (same : ∀ index < inputs.length, Batch.AsksFirst job layout before inputs schedule index ↔
      Batch.AsksFirst job layout before inputs other index) :
    crew.report inputs = second.report inputs ∧
      ∀ spot, crew.store.find? spot = second.store.find? spot := by
  have same {index : Nat} {input : Path} (found : inputs[index]? = some input) :=
    same index (List.getElem?_eq_some_iff.mp found).1
  constructor
  · have stages {index : Nat} {input : Path} (found : inputs[index]? = some input) :
        crew.stages index = second.stages index := by
      cases has : Batch.outputPath? job layout before input with
      | none => rw [settled.alone found (.inl has), other_settled.alone found (.inl has)]
      | some output =>
          by_cases first : Batch.AsksFirst job layout before inputs schedule index
          · rw [settled.alone found (.inr first),
              other_settled.alone found (.inr ((same found).mp first))]
          · rw [settled.refused found has first,
              other_settled.refused found has fun later => first ((same found).mpr later)]
    refine congrArg Report.ofResults (List.map_congr_left fun (input, index) member => ?_)
    have found := List.mem_zipIdx_iff_getElem?.mp member
    exact congrArg (fun stage : Stage => (input, stage.result)) (stages found)
  · intro spot
    by_cases unchanged : ∀ index input, inputs[index]? = some input →
        Batch.AsksFirst job layout before inputs schedule index →
        (Batch.alone job layout before input).2.find? spot = before.find? spot
    · rw [settled.kept unchanged, other_settled.kept fun index input found first =>
        unchanged index input found ((same found).mpr first)]
    · push Not at unchanged
      obtain ⟨index, input, found, first, changed⟩ := unchanged
      rw [settled.changed found first changed,
        other_settled.changed found ((same found).mp first) changed]

end Crew

/-- The same ones of the inputs with one place ask first in two schedules. -/
def Batch.SameFirsts (job : Job) (layout : Layout) (before : FileStore) (inputs : List Path)
    (schedule other : List Nat) : Prop :=
  ∀ index rival, Rivals job layout before inputs index rival → rival ≠ index →
    (AsksFirst job layout before inputs schedule index ↔
      AsksFirst job layout before inputs other index)

instance {other : List Nat} :
    Decidable (Batch.SameFirsts job layout before inputs schedule other) :=
  decidable_of_iff (∀ index < inputs.length, ∀ rival < inputs.length,
      Batch.Rivals job layout before inputs index rival → rival ≠ index →
      (Batch.AsksFirst job layout before inputs schedule index ↔
        Batch.AsksFirst job layout before inputs other index))
    ⟨fun same index rival rivals => same index rivals.symm.inside rival rivals.inside rivals,
      fun same index _ rival _ => same index rival⟩

/-- A path that goes through directories that are there, and from there on through names only. -/
def FileStore.Anchors (store : FileStore) (path : Path) : Prop :=
  ∃ steps, ∃ names : List String, ∃ base, path.parts = steps ++ names.map .name ∧
    store.Leads steps base

namespace Crew

/-- Whatever the order of the moves on the inputs of a batch, each input ends as if it were worked
on alone, unless another one asks before it for the same place, and so the report and the files are
the same for all schedules in which the same ones of the inputs with one place ask first. -/
theorem outcome_unique {job : Job} {directory : Path} {inputs : List Path} {before : FileStore}
    (standard : job.IsStandard) (wellFormed : before.WellFormed)
    (anchored : before.Anchors directory)
    (apart : Batch.Apart job (.ofInputs directory inputs) before inputs) {schedule other : List Nat}
    (complete : ∀ index < inputs.length, 4 ≤ schedule.count index)
    (other_complete : ∀ index < inputs.length, 4 ≤ other.count index) :
    Settled job (.ofInputs directory inputs) before inputs schedule
        ((start before directory inputs).run job inputs schedule) ∧
      (Batch.SameFirsts job (.ofInputs directory inputs) before inputs schedule other →
        ((start before directory inputs).run job inputs schedule).report inputs =
            ((start before directory inputs).run job inputs other).report inputs ∧
          ∀ spot, ((start before directory inputs).run job inputs schedule).store.find? spot =
            ((start before directory inputs).run job inputs other).store.find? spot) := by
  obtain ⟨steps, names, base, parts, leads⟩ := anchored
  let setting : Setting job (.ofInputs directory inputs) before :=
    ⟨steps, base, names, standard, rfl, wellFormed, parts, leads⟩
  have settled := (consistent_run setting apart schedule).settled complete
  have other_settled := (consistent_run setting apart other).settled other_complete
  refine ⟨settled, fun same => settled.eq other_settled fun index inside => ?_⟩
  by_cases lonely : ∀ rival,
      Batch.Rivals job (.ofInputs directory inputs) before inputs index rival → rival = index
  · have enough := complete index inside
    have other_enough := other_complete index inside
    exact iff_of_true (asksFirst_of_lonely (by omega) lonely)
      (asksFirst_of_lonely (by omega) lonely)
  · push Not at lonely
    obtain ⟨rival, rivals, different⟩ := lonely
    exact same index rival rivals different

/-! ## Batches of cards -/

/-- Files that all hold a component with nothing in it. -/
def cards (names : List String) : FileStore :=
  names.foldl (fun store name => store.add ⟨name⟩ (Text.bytes "function ssrRender() \x7b\x7d"))
    (.empty [])

/-- The report on the trees of cards, after the moves of a schedule. -/
def cardReport (directory : String) (names : List String) (schedule : List Nat) : Report :=
  ((start (cards names) ⟨directory⟩ (names.map .mk)).run (.tree .usual .json) (names.map .mk)
    schedule).report (names.map .mk)

/-- The cards without a tree, and why. -/
def cardFailures (directory : String) (names : List String) (schedule : List Nat) :
    List (String × String) :=
  (cardReport directory names schedule).failed.map fun (input, failure) =>
    (input.text, failure.message)

/-- Two cards whose trees go to one place, and a third one. -/
def threeCards : List String :=
  ["Card.mjs", "Card.js", "pages/Home.js"]

/-- The first of the two cards with one place has it whenever it asks first, also when there are
moves on the other cards between its own. -/
theorem outcome_unique_threeCards :
    cardReport "out" threeCards (oneByOne [0, 1, 2]) =
        cardReport "out" threeCards [1, 2, 0, 2, 0, 1, 0, 2, 1, 0, 2, 1] ∧
      cardFailures "out" threeCards (oneByOne [0, 1, 2]) =
        [("Card.js", "output out/Card.tree.json is also written by another input")] := by
  have same : Batch.SameFirsts (.tree .usual .json) (.ofInputs ⟨"out"⟩ (threeCards.map .mk))
      (cards threeCards) (threeCards.map .mk) (oneByOne [0, 1, 2])
      [1, 2, 0, 2, 0, 1, 0, 2, 1, 0, 2, 1] := by
    decide +kernel
  have unique := outcome_unique (.inl ⟨.usual, .json, rfl⟩)
    (by decide +kernel : (cards threeCards).WellFormed)
    ⟨[], ["out"], [], by decide +kernel, rfl, rfl⟩
    (by decide +kernel : Batch.Apart _ (.ofInputs ⟨"out"⟩ _) _ (threeCards.map .mk))
    (by decide : ∀ index < 3, 4 ≤ (oneByOne [0, 1, 2]).count index)
    (by decide : ∀ index < 3, 4 ≤ [1, 2, 0, 2, 0, 1, 0, 2, 1, 0, 2, 1].count index)
  exact ⟨(unique.2 same).1, by decide +kernel⟩

/-- The order of the inputs decides which of two cards with one place has it, what there is to read
of a card in whose place a tree is written, whether a tree or the directory of another one comes to
be at a place, and, of a directory on whose way nothing is before a step back, why it cannot be
made. -/
theorem order_decides :
    cardFailures "out" ["Card.mjs", "Card.js"] (oneByOne [0, 1]) =
        [("Card.js", "output out/Card.tree.json is also written by another input")] ∧
      cardFailures "out" ["Card.mjs", "Card.js"] (oneByOne [1, 0]) =
        [("Card.mjs", "output out/Card.tree.json is also written by another input")] ∧
      cardFailures "." ["a.js", "a.tree.json"] (oneByOne [0, 1]) =
        [("a.tree.json", "failed to reconstruct a.tree.json: syntax error at byte 10")] ∧
      cardFailures "." ["a.js", "a.tree.json"] (oneByOne [1, 0]) = [] ∧
      cardFailures "out" ["a.js", "a.tree.json/b.js"] (oneByOne [0, 1]) =
        [("a.tree.json/b.js", "failed to create out/a.tree.json: File exists (os error 17)")] ∧
      cardFailures "out" ["a.js", "a.tree.json/b.js"] (oneByOne [1, 0]) =
        [("a.js", "failed to write out/a.tree.json: Is a directory (os error 21)")] ∧
      cardFailures "new/../a.js" ["a.js", "s/b.js"] (oneByOne [0, 1]) =
        [("a.js", "failed to create new/../a.js: File exists (os error 17)"),
          ("s/b.js", "failed to create new/../a.js/s: Not a directory (os error 20)")] ∧
      cardFailures "new/../a.js" ["a.js", "s/b.js"] (oneByOne [1, 0]) =
        [("a.js", "failed to create new/../a.js: File exists (os error 17)"),
          ("s/b.js", "failed to create new/../a.js/s: File exists (os error 17)")] := by
  decide +kernel

end Crew

end IslandSlots
