import IslandSlots.Proofs.Text.Cursor
import IslandSlots.Proofs.Text.EditedText

/-!
# Making edits with a cursor

Edits of a text made with a cursor that copies the text from one place to the next at which something
is inserted or replaced. No copy begins or ends inside a character, behind the end of the text or
before its beginning if that is so for every edit by itself, and the result is that of the edits.
-/

namespace IslandSlots

open Text

namespace Cursor

/-! ## Steps -/

section Steps

variable (text : List Char) (edits : List (Edit UInt8))

/-- Takes an edit in: a stretch that is replaced has something in it and ends in the text, and all
places are between characters. -/
def give : Edit UInt8 → Unstopped Unit
  | .replace start stop _ =>
    if start < stop ∧ stop ≤ size text then
      if IsCut text start ∧ IsCut text stop then .ok () else .error .split
    else .error .outside
  | .insertLeft place _ => if IsCut text place then .ok () else .error .split
  | .insertRight place _ => if IsCut text place then .ok () else .error .split

/-- Whether an edit inserts something at a place. -/
def insertsAt (place : Nat) : Edit UInt8 → Bool
  | .replace .. => false
  | .insertLeft here _ => here == place
  | .insertRight here _ => here == place

/-- Whether one of the edits inserts something at a place. -/
def isAnchor (edits : List (Edit UInt8)) (place : Nat) : Bool :=
  edits.any (insertsAt place)

/-- Copies the text from a place to another, with what is inserted at the given places between. -/
def copyAround (stop : Nat) : Nat → List Nat → Unstopped (List UInt8)
  | last, [] => slice text last stop
  | last, place :: places => do
    let before ← slice text last place
    return before ++ Edit.insertedAt edits place ++ (← copyAround stop place places)

/-- Copies the text from one place to another, with what is inserted there and between. -/
def copyRange (start stop : Nat) : Unstopped (List UInt8) :=
  if start ≤ stop then
    copyAround text edits stop start
      ((List.range' start (stop - start + 1)).filter (isAnchor edits))
  else .error .outside

/-- Copies the text from a place on, with insertions and the given replacements in order. -/
def copyFrom : Nat → List (Replacement UInt8) → Unstopped (List UInt8)
  | place, [] => copyRange text edits place (size text)
  | place, next :: rest => do
    let before ← copyRange text edits place next.start
    return before ++ next.content ++ (← copyFrom next.stop rest)

/-- Makes all edits of a text. -/
def applyEdits : Unstopped (Except EditConflict (List UInt8)) := do
  match Edit.conflict? (Edit.replacements edits) with
  | some conflict => return .error conflict
  | none => return .ok (← copyFrom text edits 0 (Edit.replacements edits))

end Steps

/-! ## What is copied -/

section Copied

variable {text : List Char} {edits : List (Edit UInt8)}

theorem le_size_of_isCut {place : Nat} (cut : IsCut text place) : place ≤ size text := by
  rw [size, length_encode]
  exact cut.le

/-- An edit between characters is taken in. -/
theorem give_eq {edit : Edit UInt8} (fits : edit.FitsText text) : give text edit = .ok () := by
  obtain ⟨proper, start, stop, -⟩ := fits
  cases edit with
  | replace first last content =>
      exact (if_pos ⟨proper, le_size_of_isCut stop⟩).trans (if_pos ⟨start, stop⟩)
  | insertLeft place content => exact if_pos start
  | insertRight place content => exact if_pos start

theorem slice_eq {start stop : Nat} (first : IsCut text start) (last : IsCut text stop)
    (ordered : start ≤ stop) :
    slice text start stop = .ok (((encode text).drop start).take (stop - start)) :=
  (if_pos ⟨first, last⟩).trans (if_pos ⟨ordered, le_size_of_isCut last⟩)

theorem insertedAt_of_not_isAnchor {place : Nat} (other : isAnchor edits place = false) :
    Edit.insertedAt edits place = [] := by
  have sides : ∀ edit ∈ edits, edit.leftAt place = [] ∧ edit.rightAt place = [] := by
    intro edit member
    have elsewhere := List.any_eq_false.mp other edit member
    cases edit <;> simp_all [insertsAt, Edit.leftAt, Edit.rightAt]
  rw [Edit.insertedAt, List.flatMap_eq_nil_iff.mpr fun edit member => (sides edit member).1,
    List.flatMap_eq_nil_iff.mpr fun edit member => (sides edit member).2]
  rfl

/-- Only between characters is something inserted. -/
theorem isCut_of_isAnchor (fits : ∀ edit ∈ edits, edit.FitsText text) {place : Nat}
    (anchor : isAnchor edits place) : IsCut text place := by
  obtain ⟨edit, member, here⟩ := List.any_eq_true.mp anchor
  have start := (fits edit member).start
  cases edit with
  | replace => cases here
  | insertLeft other content => exact eq_of_beq here ▸ start
  | insertRight other content => exact eq_of_beq here ▸ start

theorem take_drop_succ {bytes : List UInt8} {last place : Nat} (ordered : last ≤ place)
    (inside : place < bytes.length) :
    (bytes.drop last).take (place + 1 - last) =
      (bytes.drop last).take (place - last) ++ [bytes[place]] := by
  have found : (bytes.drop last)[place - last]? = some bytes[place] := by
    rw [List.getElem?_drop, Nat.add_sub_cancel' ordered, List.getElem?_eq_getElem inside]
  rw [Nat.succ_sub ordered, List.take_add_one, found]
  rfl

/-- Copying from an earlier place on to where insertions begin comes before them. -/
theorem copyAround_eq (fits : ∀ edit ∈ edits, edit.FitsText text) {last place count : Nat}
    (start : IsCut text last) (stop : IsCut text (place + count)) (ordered : last ≤ place) :
    copyAround text edits (place + count) last
        ((List.range' place (count + 1)).filter (isAnchor edits)) =
      .ok (((encode text).drop last).take (place - last) ++
        Edit.withInsertions edits place (((encode text).drop place).take count)) := by
  induction count generalizing last place with
  | zero =>
      rw [List.range'_one, List.take_zero, Edit.withInsertions]
      cases anchor : isAnchor edits place with
      | true =>
          rw [Nat.add_zero] at stop ⊢
          rw [List.filter_cons_of_pos anchor, copyAround, slice_eq start stop ordered, ok_bind,
            List.filter_nil, copyAround, slice_eq stop stop (Nat.le_refl _)]
          simp
      | false =>
          rw [List.filter_cons_of_neg (by simp [anchor]), List.filter_nil, copyAround,
            slice_eq start stop ordered, insertedAt_of_not_isAnchor anchor, List.append_nil]
          rfl
  | succ count induction =>
      have inside : place < (encode text).length := by
        have bound := le_size_of_isCut stop
        rw [size] at bound
        omega
      have next_stop : place + (count + 1) = place + 1 + count := by omega
      rw [next_stop] at stop ⊢
      rw [List.range'_succ, List.drop_eq_getElem_cons inside, List.take_succ_cons,
        Edit.withInsertions]
      cases anchor : isAnchor edits place with
      | true =>
          have here := isCut_of_isAnchor fits anchor
          rw [List.filter_cons_of_pos anchor, copyAround, slice_eq start here ordered, ok_bind,
            induction here stop (Nat.le_succ place), take_drop_succ (Nat.le_refl place) inside]
          simp
      | false =>
          rw [List.filter_cons_of_neg (by simp [anchor]),
            induction start stop (Nat.le_succ_of_le ordered), insertedAt_of_not_isAnchor anchor,
            take_drop_succ ordered inside]
          simp

/-- What is copied from one place to another is the text between them with the insertions. -/
theorem copyRange_eq (fits : ∀ edit ∈ edits, edit.FitsText text) {start stop : Nat}
    (first : IsCut text start) (last : IsCut text stop) (ordered : start ≤ stop) :
    copyRange text edits start stop =
      .ok (Edit.withInsertions edits start (((encode text).drop start).take (stop - start))) := by
  have reached : start + (stop - start) = stop := Nat.add_sub_cancel' ordered
  have copied := @copyAround_eq text edits fits start start (stop - start) first
    (by rwa [reached]) (Nat.le_refl start)
  rw [reached, Nat.sub_self, List.take_zero, List.nil_append] at copied
  rw [copyRange, if_pos ordered, copied]

/-- What is copied around stretches is the text with these replaced and with the insertions. -/
theorem copyFrom_eq (fits : ∀ edit ∈ edits, edit.FitsText text)
    {stretches : List (Replacement UInt8)} {place : Nat} (cut : IsCut text place)
    (lower : ∀ stretch ∈ stretches, place ≤ stretch.start)
    (apart : stretches.Pairwise fun first second => first.stop ≤ second.start)
    (whole : ∀ stretch ∈ stretches, IsCut text stretch.start ∧ IsCut text stretch.stop) :
    copyFrom text edits place stretches =
      .ok (Edit.applyFrom edits (encode text) place stretches) := by
  induction stretches generalizing place with
  | nil =>
      rw [copyFrom, copyRange_eq fits cut (isCut_size text) (le_size_of_isCut cut),
        List.take_of_length_le (by rw [List.length_drop, size]), Edit.applyFrom]
  | cons next rest induction =>
      obtain ⟨⟨start, stop⟩, rest_whole⟩ := List.forall_mem_cons.mp whole
      obtain ⟨behind, rest_apart⟩ := List.pairwise_cons.mp apart
      rw [copyFrom, copyRange_eq fits cut start (lower next List.mem_cons_self), ok_bind,
        induction stop behind rest_apart rest_whole]
      rfl

/-- Making edits between characters is not stopped. -/
theorem applyEdits_eq (fits : ∀ edit ∈ edits, edit.FitsText text) :
    applyEdits text edits = .ok (Edit.apply edits (encode text)) := by
  rw [applyEdits, Edit.apply]
  cases none_found : Edit.conflict? (Edit.replacements edits) with
  | some conflict => rfl
  | none =>
      have apart := Edit.apart_of_conflict?_none (Edit.replacements_ordered edits) none_found
      have whole : ∀ stretch ∈ Edit.replacements edits,
          IsCut text stretch.start ∧ IsCut text stretch.stop := by
        intro stretch member
        obtain ⟨start, stop, -⟩ :=
          Edit.whole_of_fits fits stretch ((Edit.replacements_perm edits).mem_iff.mp member)
        exact ⟨start, stop⟩
      rw [copyFrom_eq fits (isCut_zero text) (fun stretch _ => Nat.zero_le stretch.start) apart
        whole]
      rfl

end Copied

end Cursor

end IslandSlots
