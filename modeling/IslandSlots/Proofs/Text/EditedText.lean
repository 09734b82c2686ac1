import IslandSlots.Proofs.Text.Placewise
import IslandSlots.Slot.Annotated

/-!
# Edited text

Edits that put text between the characters of a text, or in place of some of them, make text: the
one that is written place by place. They fail where two of them replace the same bytes, and only the
order of insertions on one side of one place matters.
-/

namespace IslandSlots

namespace Edit

open Replacement

/-- An edit puts text between characters of a text, or in place of some of them. -/
structure FitsText (text : List Char) (edit : Edit UInt8) : Prop where
  /-- What it replaces is not empty. -/
  proper : edit.Proper
  /-- It begins between characters. -/
  start : Text.IsCut text edit.change.start
  /-- It ends between characters. -/
  stop : Text.IsCut text edit.change.stop
  /-- What it puts is text. -/
  content : ∃ written, edit.change.content = Text.encode written

section FitsText

variable {text : List Char} {edits : List (Edit UInt8)}

/-- Texts one behind the other are a text. -/
theorem exists_flatMap_encode {α : Type} {found : List α} {bytes : α → List UInt8}
    (each : ∀ item ∈ found, ∃ written, bytes item = Text.encode written) :
    ∃ written, found.flatMap bytes = Text.encode written := by
  induction found with
  | nil => exact ⟨[], rfl⟩
  | cons item found induction =>
      obtain ⟨⟨first, first_eq⟩, rest⟩ := List.forall_mem_cons.mp each
      obtain ⟨second, second_eq⟩ := induction rest
      exact ⟨first ++ second, by rw [List.flatMap_cons, first_eq, second_eq, Text.encode_append]⟩

/-- What is inserted at a place is text. -/
theorem exists_insertedAt_encode (fits : ∀ edit ∈ edits, edit.FitsText text) (place : Nat) :
    ∃ written, insertedAt edits place = Text.encode written := by
  have sides : ∀ edit ∈ edits, (∃ written, edit.leftAt place = Text.encode written) ∧
      ∃ written, edit.rightAt place = Text.encode written := by
    intro edit member
    have content := (fits edit member).content
    cases edit with
    | replace start stop put => exact ⟨⟨[], rfl⟩, ⟨[], rfl⟩⟩
    | insertLeft here put =>
        refine ⟨?_, ⟨[], rfl⟩⟩
        rw [leftAt]
        split
        · exact content
        · exact ⟨[], rfl⟩
    | insertRight here put =>
        refine ⟨⟨[], rfl⟩, ?_⟩
        rw [rightAt]
        split
        · exact content
        · exact ⟨[], rfl⟩
  obtain ⟨first, first_eq⟩ := exists_flatMap_encode fun edit member => (sides edit member).1
  obtain ⟨second, second_eq⟩ := exists_flatMap_encode fun edit member => (sides edit member).2
  exact ⟨first ++ second, by rw [insertedAt, first_eq, second_eq, Text.encode_append]⟩

/-- Nothing is inserted inside a character. -/
theorem insertedAt_of_not_isCut (fits : ∀ edit ∈ edits, edit.FitsText text) {place : Nat}
    (inside : ¬Text.IsCut text place) : insertedAt edits place = [] := by
  have sides : ∀ edit ∈ edits, edit.leftAt place = [] ∧ edit.rightAt place = [] := by
    intro edit member
    apply at_of_not_insertsAt
    have start := (fits edit member).start
    rw [insertsAt, Bool.and_eq_false_iff]
    refine .inl (beq_eq_false_iff_ne.mpr ?_)
    rintro rfl
    exact inside start
  rw [insertedAt, List.flatMap_eq_nil_iff.mpr fun edit member => (sides edit member).1,
    List.flatMap_eq_nil_iff.mpr fun edit member => (sides edit member).2]
  rfl

/-- Elements between which nothing is inserted stay together. -/
theorem withInsertions_append {place : Nat} {front back : List UInt8}
    (none_inside : ∀ here, place ≤ here → here < place + front.length →
      insertedAt edits here = []) :
    withInsertions edits place (front ++ back) =
      front ++ withInsertions edits (place + front.length) back := by
  induction front generalizing place with
  | nil => rfl
  | cons byte front induction =>
      rw [List.length_cons] at none_inside ⊢
      rw [List.cons_append, withInsertions, none_inside place (Nat.le_refl place) (by omega),
        induction fun here lower upper => none_inside here (by omega) (by omega),
        Nat.add_right_comm place 1, Nat.add_assoc]
      rfl

/-- A text with insertions between its characters is text. -/
theorem exists_withInsertions_encode {before part after : List Char}
    (fits : ∀ edit ∈ edits, edit.FitsText (before ++ part ++ after)) :
    ∃ written, withInsertions edits (Text.byteLength before) (Text.encode part) =
      Text.encode written := by
  induction part generalizing before with
  | nil => exact exists_insertedAt_encode fits (Text.byteLength before)
  | cons c part induction =>
      obtain ⟨inserted, inserted_eq⟩ := exists_insertedAt_encode fits (Text.byteLength before)
      have split : before ++ c :: part ++ after = before ++ [c] ++ part ++ after := by simp
      obtain ⟨rest, rest_eq⟩ := @induction (before ++ [c]) (by rwa [← split])
      obtain ⟨first, others, bytes_eq⟩ : ∃ first others,
          String.utf8EncodeChar c = first :: others :=
        List.exists_cons_of_length_pos (String.length_utf8EncodeChar c ▸ c.utf8Size_pos)
      have size_eq : others.length + 1 = c.utf8Size := by
        rw [← String.length_utf8EncodeChar, bytes_eq, List.length_cons]
      have none_inside : ∀ here, Text.byteLength before + 1 ≤ here →
          here < Text.byteLength before + 1 + others.length → insertedAt edits here = [] := by
        intro here lower upper
        apply insertedAt_of_not_isCut fits
        rw [List.append_assoc]
        exact Text.not_isCut_inside lower (by omega)
      have behind : Text.byteLength before + 1 + others.length =
          Text.byteLength (before ++ [c]) := by
        rw [Text.byteLength_append, Text.byteLength_cons, Text.byteLength_nil]
        omega
      refine ⟨inserted ++ [c] ++ rest, ?_⟩
      calc
        withInsertions edits (Text.byteLength before) (Text.encode (c :: part)) =
            withInsertions edits (Text.byteLength before)
              (first :: (others ++ Text.encode part)) := by
          rw [Text.encode, List.flatMap_cons, bytes_eq]
          rfl
        _ = Text.encode inserted ++ first :: (others ++ Text.encode rest) := by
          rw [withInsertions, withInsertions_append none_inside, behind, rest_eq, inserted_eq]
        _ = Text.encode (inserted ++ [c] ++ rest) := by
          simp [Text.encode, bytes_eq]

/-- Stretches of a text are replaced by text. -/
theorem exists_applyFrom_encode {stretches : List (Replacement UInt8)} {place : Nat}
    (fits : ∀ edit ∈ edits, edit.FitsText text) (cut : Text.IsCut text place)
    (lower : ∀ stretch ∈ stretches, place ≤ stretch.start)
    (apart : stretches.Pairwise fun first second => first.stop ≤ second.start)
    (whole : ∀ stretch ∈ stretches, Text.IsCut text stretch.start ∧ Text.IsCut text stretch.stop ∧
      ∃ written, stretch.content = Text.encode written) :
    ∃ written, applyFrom edits (Text.encode text) place stretches = Text.encode written := by
  have between {start stop : Nat} (first : Text.IsCut text start) (second : Text.IsCut text stop)
      (ordered : start ≤ stop) : ∃ written,
        withInsertions edits start (((Text.encode text).drop start).take (stop - start)) =
          Text.encode written := by
    obtain ⟨before, part, after, rfl, rfl, rfl⟩ := first.exists_split second ordered
    have slice : ((Text.encode (before ++ part ++ after)).drop (Text.byteLength before)).take
        (Text.byteLength (before ++ part) - Text.byteLength before) = Text.encode part := by
      rw [Text.byteLength_append, Nat.add_sub_cancel_left, List.append_assoc, Text.encode_append,
        ← Text.length_encode before, List.drop_left, Text.encode_append, ← Text.length_encode part,
        List.take_left]
    rw [slice]
    exact exists_withInsertions_encode fits
  induction stretches generalizing place with
  | nil =>
      have last : Text.IsCut text (Text.byteLength text) := ⟨text, [], by simp, rfl⟩
      obtain ⟨written, written_eq⟩ := between cut last cut.le
      rw [← Text.length_encode, List.take_of_length_le (by rw [List.length_drop])] at written_eq
      exact ⟨written, written_eq⟩
  | cons next rest induction =>
      obtain ⟨⟨start, stop, put, put_eq⟩, rest_whole⟩ := List.forall_mem_cons.mp whole
      obtain ⟨behind, rest_apart⟩ := List.pairwise_cons.mp apart
      obtain ⟨front, front_eq⟩ := between cut start (lower next List.mem_cons_self)
      obtain ⟨back, back_eq⟩ := induction stop behind rest_apart rest_whole
      exact ⟨front ++ put ++ back, by
        rw [applyFrom, front_eq, put_eq, back_eq, Text.encode_append, Text.encode_append]⟩

/-- The stretches that are replaced begin and end between characters and make room for text. -/
theorem whole_of_fits (fits : ∀ edit ∈ edits, edit.FitsText text) :
    ∀ stretch ∈ edits.filterMap replacement?, Text.IsCut text stretch.start ∧
      Text.IsCut text stretch.stop ∧ ∃ written, stretch.content = Text.encode written := by
  intro stretch found
  rw [filterMap_replacement? fun edit member => (fits edit member).proper] at found
  obtain ⟨edit, member, rfl⟩ := List.mem_map.mp (List.mem_filter.mp found).1
  obtain ⟨-, start, stop, content⟩ := fits edit member
  exact ⟨start, stop, content⟩

/-- Edits of text that are not in conflict make the text that is written place by place. -/
theorem exists_placewise_encode (fits : ∀ edit ∈ edits, edit.FitsText text)
    (free : meetings (edits.filterMap replacement?) = ∅) :
    ∃ written, apply edits (Text.encode text) = .ok (Text.encode written) ∧
      placewise edits (Text.encode text) = Text.encode written := by
  have proper := fun edit member => (fits edit member).proper
  have whole := whole_of_fits fits
  have perm := replacements_perm edits
  obtain ⟨none_found, apart⟩ := apart_of_free proper free
  obtain ⟨written, written_eq⟩ := exists_applyFrom_encode fits (Text.isCut_zero text)
    (fun stretch _ => Nat.zero_le stretch.start) apart
    fun stretch member => whole stretch (perm.mem_iff.mp member)
  have made : apply edits (Text.encode text) = .ok (Text.encode written) := by
    rw [apply, none_found, ← written_eq]
  have inside : ∀ stretch ∈ edits.filterMap replacement?,
      stretch.stop ≤ (Text.encode text).length := by
    intro stretch member
    rw [Text.length_encode]
    exact (whole stretch member).2.1.le
  rw [apply_eq_placewise proper inside free] at made
  exact ⟨written, (apply_eq_placewise proper inside free).trans made, Except.ok.inj made⟩

end FitsText

end Edit

open Edit Replacement

/-- Edits of a text fail exactly where two of the stretches that they replace meet, at the first
such place. Else they make the text whose bytes are written place by place. Either way only the
order of what is inserted on one side of one place matters. -/
theorem editedText_placewise {source : String} {edits : List (Edit UInt8)}
    (fits : ∀ edit ∈ edits, edit.FitsText source.toList) :
    (∀ offset, editedText edits source = .error ⟨offset⟩ ↔
        IsLeast (meetings (edits.filterMap replacement?)) offset) ∧
      (meetings (edits.filterMap replacement?) = ∅ →
        ∃ out, editedText edits source = .ok out ∧
          Text.bytes out = placewise edits (Text.bytes source)) ∧
      ∀ others : List (Edit UInt8), others.Perm edits →
        (∀ place, others.flatMap (leftAt place) = edits.flatMap (leftAt place)) →
        (∀ place, others.flatMap (rightAt place) = edits.flatMap (rightAt place)) →
          editedText others source = editedText edits source := by
  have proper := fun edit member => (fits edit member).proper
  refine ⟨fun offset => ?_, fun free => ?_, fun others perm lefts rights => ?_⟩
  · rw [← apply_eq_error_iff (Text.bytes source) offset proper, editedText]
    cases apply edits (Text.bytes source) <;> simp [Except.map]
  · obtain ⟨written, made, written_eq⟩ := exists_placewise_encode fits free
    refine ⟨String.ofList written, ?_, ?_⟩
    · rw [editedText, Text.bytes, made]
      exact congrArg (fun text => Except.ok (String.ofList text)) (Text.decode_encode written)
    · rw [Text.bytes, Text.bytes, written_eq, String.toList_ofList]
  · have inside : ∀ stretch ∈ edits.filterMap replacement?,
        stretch.stop ≤ (Text.bytes source).length := by
      intro stretch member
      rw [Text.bytes, Text.length_encode]
      exact (whole_of_fits fits stretch member).2.1.le
    rw [editedText, editedText, apply_perm proper inside perm lefts rights]

/-- Edits that touch one another: two stretches with insertions on both sides of the place where
they meet. -/
def touchingEdits : List (Edit UInt8) :=
  [.insertRight 2 (Text.bytes "R"), .replace 2 5 (Text.bytes "<i>"), .insertLeft 2 (Text.bytes "L"),
    .replace 0 2 (Text.bytes "e"), .insertLeft 4 (Text.bytes "lost")]

theorem editedText_placewise_touchingEdits :
    (∀ edit ∈ touchingEdits, edit.FitsText "é<b>".toList) ∧
      meetings (touchingEdits.filterMap replacement?) = ∅ ∧
        ∃ out, editedText touchingEdits "é<b>" = .ok out ∧
          Text.bytes out = Text.bytes "eLR<i>" := by
  have cut_two : Text.IsCut "é<b>".toList 2 := ⟨['é'], ['<', 'b', '>'], rfl, rfl⟩
  have cut_five : Text.IsCut "é<b>".toList 5 := ⟨['é', '<', 'b', '>'], [], rfl, rfl⟩
  have cut_four : Text.IsCut "é<b>".toList 4 := ⟨['é', '<', 'b'], ['>'], rfl, rfl⟩
  have fits : ∀ edit ∈ touchingEdits, edit.FitsText "é<b>".toList := by
    intro edit member
    simp only [touchingEdits, List.mem_cons, List.not_mem_nil, or_false] at member
    obtain rfl | rfl | rfl | rfl | rfl := member
    · exact ⟨trivial, cut_two, cut_two, "R".toList, rfl⟩
    · exact ⟨Nat.lt_of_sub_pos (Nat.succ_pos 2), cut_two, cut_five, "<i>".toList, rfl⟩
    · exact ⟨trivial, cut_two, cut_two, "L".toList, rfl⟩
    · exact ⟨Nat.succ_pos 1, Text.isCut_zero _, cut_two, "e".toList, rfl⟩
    · exact ⟨trivial, cut_four, cut_four, "lost".toList, rfl⟩
  have free : meetings (touchingEdits.filterMap replacement?) = ∅ := by
    have listed : touchingEdits.filterMap replacement? =
        [⟨2, 5, Text.bytes "<i>"⟩, ⟨0, 2, Text.bytes "e"⟩] := rfl
    rw [listed, meetings_perm (List.Perm.swap _ _ _)]
    exact meetings_of_apart (List.pairwise_pair.mpr (Nat.le_refl 2))
  have written : placewise touchingEdits (Text.bytes "é<b>") = Text.bytes "eLR<i>" := by
    decide +kernel
  refine ⟨fits, free, ?_⟩
  rw [← written]
  exact (editedText_placewise fits).2.1 free

end IslandSlots
