import IslandSlots.Proofs.Output.Places
import IslandSlots.Proofs.Output.SharedDirectory
import Mathlib.Data.List.Nodup

/-!
# Places given out on request

A layout that answers requests one after the other gives out places below the output directory, and
none of them twice: a request is refused exactly if its place is given out already. The place of an
output goes through the names of the directory of its input, so inputs of the layout whose
directories differ in their names do not get in the way of each other.
-/

namespace IslandSlots

/-- A request for the place of an output. -/
structure OutputRequest where
  /-- The input. -/
  input : Path
  /-- The name of the output. -/
  fileName : String
  deriving DecidableEq, Repr

/-- The names on a path, without the top, the dots and the steps back. -/
def Path.names (path : Path) : List String :=
  path.parts.filterMap PathPart.name?

namespace Layout

/-- The place that a request asks for. -/
def place (layout : Layout) (request : OutputRequest) : Path :=
  layout.pathFor request.input request.fileName

/-- The answer to a request: its place, or a refusal. -/
def answer (layout : Layout) (request : OutputRequest) : Except Collision Path :=
  (layout.claim request.input request.fileName).map Prod.fst

/-- The layout after a request. If it is refused, nothing has changed. -/
def after (layout : Layout) (request : OutputRequest) : Layout :=
  match layout.claim request.input request.fileName with
  | .ok (_, next) => next
  | .error _ => layout

/-- The layout after requests one behind the other. -/
def afterAll (layout : Layout) (requests : List OutputRequest) : Layout :=
  requests.foldl after layout

/-- The answers to requests one behind the other. -/
def answers (layout : Layout) : List OutputRequest → List (Except Collision Path)
  | [] => []
  | request :: rest => layout.answer request :: (layout.after request).answers rest

/-- The places given out in some answers. -/
def granted (answers : List (Except Collision Path)) : List Path :=
  answers.filterMap Except.toOption

/-- A layout gives out the places for some requests apart from each other, in its directory. -/
structure GivesApart (layout : Layout) (requests : List OutputRequest) : Prop where
  /-- A request gets its place, unless it is among those given out before. -/
  answered (index : Nat) (request : OutputRequest) (asked : requests[index]? = some request) :
    (layout.answers requests)[index]? = some
      (if (layout.place request).parts ∈
          (granted ((layout.answers requests).take index)).map Path.parts then
        .error ⟨layout.place request⟩
      else .ok (layout.place request))
  /-- Its place goes from the directory through names only to the file name. -/
  inside (request : OutputRequest) (asked : request ∈ requests) : ∃ names : List String,
    (∀ name ∈ names, PathPart.IsName name) ∧ (layout.place request).parts =
      layout.directory.parts ++ names.map .name ++ [.name request.fileName]
  /-- No place is given out twice. -/
  apart : ((granted (layout.answers requests)).map Path.parts).Nodup
  /-- The layout knows the places given out, at any time. -/
  claimed (count : Nat) : (layout.afterAll (requests.take count)).claimed =
    ((granted ((layout.answers requests).take count)).map Path.parts).reverse
  /-- A refusal changes nothing. -/
  kept (index : Nat) (collision : Collision)
    (refused : (layout.answers requests)[index]? = some (.error collision)) :
    layout.afterAll (requests.take (index + 1)) = layout.afterAll (requests.take index)

/-! ## Single requests -/

section Single

variable (layout : Layout) (request : OutputRequest)

theorem claim_eq : layout.claim request.input request.fileName =
    if (layout.place request).parts ∈ layout.claimed then .error ⟨layout.place request⟩
    else .ok (layout.place request,
      { layout with claimed := (layout.place request).parts :: layout.claimed }) := by
  rw [claim, place]
  simp only [List.contains_iff_mem]

theorem answer_eq : layout.answer request =
    if (layout.place request).parts ∈ layout.claimed then .error ⟨layout.place request⟩
    else .ok (layout.place request) := by
  rw [answer, claim_eq]
  split <;> rfl

theorem after_eq : layout.after request =
    if (layout.place request).parts ∈ layout.claimed then layout
    else { layout with claimed := (layout.place request).parts :: layout.claimed } := by
  rw [after, claim_eq]
  by_cases taken : (layout.place request).parts ∈ layout.claimed
  · rw [if_pos taken, if_pos taken]
  · rw [if_neg taken, if_neg taken]

/-- What is asked for before does not move a place. -/
theorem place_after (other : OutputRequest) :
    (layout.after request).place other = layout.place other := by
  rw [after_eq]
  split <;> rfl

/-- The places given out are those before and the one that the answer gives. -/
theorem claimed_after : (layout.after request).claimed =
    ((granted [layout.answer request]).map Path.parts).reverse ++ layout.claimed := by
  rw [after_eq, answer_eq]
  split <;> rfl

theorem nodup_claimed_after (apart : layout.claimed.Nodup) :
    (layout.after request).claimed.Nodup := by
  rw [after_eq]
  split
  · exact apart
  · rename_i free
    exact List.nodup_cons.mpr ⟨free, apart⟩

theorem after_of_refused {collision : Collision}
    (refused : layout.answer request = .error collision) : layout.after request = layout := by
  rw [answer_eq] at refused
  rw [after_eq]
  split at refused
  · rename_i taken
    exact if_pos taken
  · cases refused

end Single

/-! ## Requests one behind the other -/

section Rows

variable (layout : Layout) (requests : List OutputRequest)

theorem granted_append (front back : List (Except Collision Path)) :
    granted (front ++ back) = granted front ++ granted back :=
  List.filterMap_append

theorem length_answers : (layout.answers requests).length = requests.length := by
  induction requests generalizing layout with
  | nil => rfl
  | cons request requests induction =>
      rw [answers, List.length_cons, List.length_cons, induction]

/-- What is asked for later does not change an answer. -/
theorem take_answers (count : Nat) :
    (layout.answers requests).take count = layout.answers (requests.take count) := by
  induction requests generalizing layout count with
  | nil => rw [answers, List.take_nil, List.take_nil, answers]
  | cons request requests induction =>
      cases count with
      | zero => rfl
      | succ count => rw [answers, List.take_succ_cons, List.take_succ_cons, answers, induction]

theorem place_afterAll (request : OutputRequest) :
    (layout.afterAll requests).place request = layout.place request := by
  induction requests generalizing layout with
  | nil => rfl
  | cons first requests induction =>
      exact (induction (layout.after first)).trans (place_after layout first request)

theorem claimed_afterAll : (layout.afterAll requests).claimed =
    ((granted (layout.answers requests)).map Path.parts).reverse ++ layout.claimed := by
  induction requests generalizing layout with
  | nil => rfl
  | cons request requests induction =>
      have behind := induction (layout.after request)
      rw [claimed_after, ← List.append_assoc, ← List.reverse_append, ← List.map_append,
        ← granted_append] at behind
      exact behind

theorem nodup_claimed_afterAll (apart : layout.claimed.Nodup) :
    (layout.afterAll requests).claimed.Nodup := by
  induction requests generalizing layout with
  | nil => exact apart
  | cons request requests induction =>
      exact induction (layout.after request) (nodup_claimed_after layout request apart)

/-- A request is answered by the layout after those before it. -/
theorem getElem?_answers {index : Nat} {request : OutputRequest}
    (asked : requests[index]? = some request) : (layout.answers requests)[index]? =
      some ((layout.afterAll (requests.take index)).answer request) := by
  induction requests generalizing layout index with
  | nil => cases asked
  | cons first requests induction =>
      cases index with
      | zero =>
          cases asked
          rfl
      | succ index => exact induction (layout.after first) asked

/-- A request that is refused leaves the layout as it is after those before it. -/
theorem afterAll_of_refused {index : Nat} {collision : Collision}
    (refused : (layout.answers requests)[index]? = some (.error collision)) :
    layout.afterAll (requests.take (index + 1)) = layout.afterAll (requests.take index) := by
  have bound : index < requests.length := by
    rw [← length_answers layout]
    exact (List.getElem?_eq_some_iff.mp refused).1
  rw [getElem?_answers layout requests (List.getElem?_eq_getElem bound)] at refused
  rw [← List.take_append_getElem bound, afterAll, List.foldl_concat]
  exact after_of_refused _ _ (Option.some.inj refused)

end Rows

/-! ## Places below the directory -/

/-- The parts of a place. -/
theorem parts_place (layout : Layout) (request : OutputRequest)
    (named : PathPart.IsName request.fileName) : (layout.place request).parts =
      layout.directory.parts ++ (layout.relativeNames request.input).map .name ++
        [.name request.fileName] := by
  have nothing_behind : layout.directory.parts =
      layout.directory.parts ++ ([] : List String).map .name :=
    (List.append_nil _).symm
  exact (pathFor_descends layout request.input named nothing_behind).parts

/-- A layout for any inputs gives out places in its directory, and none of them twice, whatever is
asked for under names that are file names. -/
theorem givesApart_ofInputs (directory : Path) (inputs : List Path)
    {requests : List OutputRequest}
    (named : ∀ request ∈ requests, PathPart.IsName request.fileName) :
    (ofInputs directory inputs).GivesApart requests := by
  generalize layout_eq : ofInputs directory inputs = layout
  have fresh : layout.claimed = [] := layout_eq ▸ rfl
  have known (requests : List OutputRequest) : (layout.afterAll requests).claimed =
      ((granted (layout.answers requests)).map Path.parts).reverse := by
    rw [claimed_afterAll, fresh, List.append_nil]
  refine ⟨fun index request asked => ?_, fun request asked => ?_, ?_, fun count => ?_,
    fun _ _ => afterAll_of_refused layout requests⟩
  · rw [getElem?_answers layout requests asked, answer_eq, place_afterAll, known, take_answers]
    simp only [List.mem_reverse]
  · exact ⟨_, fun _ => isName_of_mem_relativeNames, parts_place layout request (named request asked)⟩
  · have apart := nodup_claimed_afterAll layout requests (fresh ▸ .nil)
    rwa [known, List.nodup_reverse] at apart
  · rw [known, take_answers]

/-- Dots, a top and steps back on the way of an input, and a place that is asked for again. -/
theorem givesApart_ofInputs_stepsBack :
    let inputs : List Path := [⟨"../a/x.vue"⟩, ⟨"/b/./y.vue"⟩]
    let requests : List OutputRequest := [⟨⟨"../a/x.vue"⟩, "x.vue"⟩,
      ⟨⟨"/a/../x.vue"⟩, "x.vue"⟩, ⟨⟨"/b/./y.vue"⟩, "y.vue"⟩, ⟨⟨"../a/x.vue"⟩, "..."⟩]
    (∀ request ∈ requests, PathPart.IsName request.fileName) ∧
      (ofInputs ⟨"./out"⟩ inputs).answers requests =
        [.ok ⟨"./out/a/x.vue"⟩, .error ⟨⟨"./out/a/x.vue"⟩⟩, .ok ⟨"./out/b/y.vue"⟩,
          .ok ⟨"./out/a/..."⟩] ∧
      (ofInputs ⟨"./out"⟩ inputs).GivesApart requests := by
  intro inputs requests
  have named : ∀ request ∈ requests, PathPart.IsName request.fileName := by decide +kernel
  exact ⟨named, by decide +kernel, givesApart_ofInputs _ inputs named⟩

/-! ## Directories of inputs -/

section Mirror

variable {directory : Path} {inputs : List Path} {first second : Path} {fileName : String}

/-- Two places agree if the names on the way to them and their file names do. -/
theorem parts_place_eq_iff (layout : Layout) {one other : OutputRequest}
    (one_named : PathPart.IsName one.fileName) (other_named : PathPart.IsName other.fileName) :
    (layout.place one).parts = (layout.place other).parts ↔
      layout.relativeNames one.input = layout.relativeNames other.input ∧
        one.fileName = other.fileName := by
  rw [parts_place layout one one_named, parts_place layout other other_named]
  constructor
  · intro same
    obtain ⟨ways, ends⟩ := List.append_inj' same rfl
    have names := List.append_cancel_left ways
    exact ⟨(List.map_injective_iff.mpr fun _ _ => PathPart.name.inj) names,
      PathPart.name.inj (List.singleton_inj.mp ends)⟩
  · rintro ⟨ways, ends⟩
    rw [ways, ends]

/-- The names of the directory of an input are those of the base and those behind it. -/
theorem names_parent (directory : Path) (among : first ∈ inputs) : first.parent.names =
    (commonBase inputs).filterMap PathPart.name? ++
      (ofInputs directory inputs).relativeNames first := by
  rw [Path.names, Path.parts_parent]
  conv_lhs => rw [← commonBase_append_withoutBase among]
  exact List.filterMap_append

theorem relativeNames_eq_iff (directory : Path) (first_among : first ∈ inputs)
    (second_among : second ∈ inputs) :
    (ofInputs directory inputs).relativeNames first =
        (ofInputs directory inputs).relativeNames second ↔
      first.parent.names = second.parent.names := by
  rw [names_parent directory first_among, names_parent directory second_among,
    List.append_cancel_left_eq]

/-- Two inputs of a layout get different places for the same file name exactly if the names of their
directories differ; else the second one is refused. A place goes through the names by which the
directory of its input lies behind the base. -/
theorem places_mirror (directory : Path) (first_among : first ∈ inputs)
    (second_among : second ∈ inputs) (named : PathPart.IsName fileName) :
    let layout := ofInputs directory inputs
    let one := layout.place ⟨first, fileName⟩
    let other := layout.place ⟨second, fileName⟩
    layout.answers [⟨first, fileName⟩, ⟨second, fileName⟩] =
        [.ok one, if first.parent.names = second.parent.names then .error ⟨other⟩ else .ok other] ∧
      (one.parts = other.parts ↔ first.parent.names = second.parent.names) ∧
      ∀ input ∈ inputs, ∃ behind, layout.base ++ behind = input.parent.parts ∧
        (layout.place ⟨input, fileName⟩).parts =
          directory.parts ++ (behind.filterMap PathPart.name?).map .name ++ [.name fileName] := by
  intro layout one other
  have same_iff : one.parts = other.parts ↔ first.parent.names = second.parent.names := by
    rw [parts_place_eq_iff layout named named, relativeNames_eq_iff directory first_among second_among]
    exact and_iff_left rfl
  refine ⟨?_, same_iff, fun input among => ⟨_, ?_, parts_place layout ⟨input, fileName⟩ named⟩⟩
  · have first_answer : layout.answer ⟨first, fileName⟩ = .ok one := by
      rw [answer_eq]
      exact if_neg List.not_mem_nil
    have known : (layout.after ⟨first, fileName⟩).claimed = [one.parts] := by
      rw [claimed_after, first_answer]
      rfl
    have taken_iff : other.parts ∈ [one.parts] ↔ first.parent.names = second.parent.names := by
      rw [List.mem_singleton, eq_comm, same_iff]
    have second_answer : (layout.after ⟨first, fileName⟩).answer ⟨second, fileName⟩ =
        if first.parent.names = second.parent.names then .error ⟨other⟩ else .ok other := by
      rw [answer_eq, place_after, known]
      exact if_congr taken_iff rfl rfl
    rw [answers, answers, answers, first_answer, second_answer]
  · rw [Path.parts_parent]
    exact commonBase_append_withoutBase among

/-- A step back behind the base is no name of a directory, but what comes after it is. -/
theorem places_mirror_besideBase :
    let first : Path := ⟨"/w/src/./a/x.vue"⟩
    let second : Path := ⟨"/w/src/../lib/x.vue"⟩
    let layout := ofInputs ⟨"out"⟩ [first, second]
    PathPart.IsName "x.vue" ∧ first.parent.names ≠ second.parent.names ∧
      layout.place ⟨first, "x.vue"⟩ = ⟨"out/a/x.vue"⟩ ∧
      layout.place ⟨second, "x.vue"⟩ = ⟨"out/lib/x.vue"⟩ ∧
      layout.answers [⟨first, "x.vue"⟩, ⟨second, "x.vue"⟩] =
        [.ok ⟨"out/a/x.vue"⟩, .ok ⟨"out/lib/x.vue"⟩] ∧
      ∃ behind, layout.base ++ behind = second.parent.parts ∧
        (⟨"out/lib/x.vue"⟩ : Path).parts =
          .name "out" :: (behind.filterMap PathPart.name?).map .name ++ [.name "x.vue"] := by
  intro first second layout
  have named : PathPart.IsName "x.vue" := by decide +kernel
  have differ : first.parent.names ≠ second.parent.names := by decide +kernel
  have first_place : layout.place ⟨first, "x.vue"⟩ = ⟨"out/a/x.vue"⟩ := by decide +kernel
  have second_place : layout.place ⟨second, "x.vue"⟩ = ⟨"out/lib/x.vue"⟩ := by decide +kernel
  have first_among : first ∈ [first, second] := List.mem_cons_self
  have second_among : second ∈ [first, second] := List.mem_cons_of_mem first List.mem_cons_self
  obtain ⟨answered, -, mirrored⟩ := places_mirror ⟨"out"⟩ first_among second_among named
  rw [if_neg differ, first_place, second_place] at answered
  obtain ⟨behind, whole, place_eq⟩ := mirrored second second_among
  rw [second_place] at place_eq
  exact ⟨named, differ, first_place, second_place, answered, behind, whole, place_eq⟩

/-- An input in the directory around has its output where one in the directory itself has it. -/
theorem places_directoryAround :
    let first : Path := ⟨"../a.vue"⟩
    let second : Path := ⟨"a.vue"⟩
    first.parent.parts ≠ second.parent.parts ∧ PathPart.IsName "a.vue" ∧
      (ofInputs ⟨"out"⟩ [first, second]).answers [⟨first, "a.vue"⟩, ⟨second, "a.vue"⟩] =
        [.ok ⟨"out/a.vue"⟩, .error ⟨⟨"out/a.vue"⟩⟩] := by
  decide +kernel

end Mirror

end Layout

end IslandSlots
