import IslandSlots.Text.Edits
import IslandSlots.Proofs.Text.Utf8
import Mathlib.Data.List.Pairwise

/-!
# Edits as one splice

Changes to a sequence that keep out of each other's way, put in the order of their places. Made one
after the other in that order, each of them puts its content where it belongs and copies what lies
between. Edits with these changes give the same sequence in whatever order they are listed, and are
never in conflict.
-/

namespace IslandSlots

namespace Replacement

variable {α : Type}

/-- A change comes before another: it ends where the other begins or earlier, and they are not two
insertions at one place. -/
def Before (first second : Replacement α) : Prop :=
  first.stop ≤ second.start ∧ first.start < second.stop

instance : DecidableRel (Before (α := α)) :=
  fun _ _ => inferInstanceAs (Decidable (_ ∧ _))

/-- A sequence from a place on with changes made in order. -/
def splice (source : List α) (place : Nat) : List (Replacement α) → List α
  | [] => source.drop place
  | next :: rest =>
    (source.drop place).take (next.start - place) ++ next.content ++ splice source next.stop rest

/-- Whether a change takes the place of any element. -/
def isProper (change : Replacement α) : Bool :=
  change.start < change.stop

/-- Whether a change inserts at a place. -/
def insertsAt (place : Nat) (change : Replacement α) : Bool :=
  change.start == place && change.stop == place

/-- The edit that makes a change. -/
def edit (change : Replacement α) : Edit α :=
  if change.isProper then .replace change.start change.stop change.content
  else .insertLeft change.start change.content

end Replacement

namespace Edit

open Replacement

variable {α : Type}

/-- The change that an edit makes; what it inserts stands for an empty stretch. -/
def change : Edit α → Replacement α
  | replace start stop content => ⟨start, stop, content⟩
  | insertLeft place content => ⟨place, place, content⟩
  | insertRight place content => ⟨place, place, content⟩

/-- An edit that replaces something replaces an element at least. -/
def Proper : Edit α → Prop
  | replace start stop _ => start < stop
  | _ => True

theorem change_edit {change : Replacement α} (forward : change.start ≤ change.stop) :
    change.edit.change = change := by
  obtain ⟨start, stop, content⟩ := change
  rw [Replacement.edit]
  split
  · rfl
  · rename_i improper
    obtain rfl : start = stop := by
      simp only [isProper, decide_eq_true_eq] at improper
      exact Nat.le_antisymm forward (Nat.le_of_not_lt improper)
    rfl

theorem proper_edit (change : Replacement α) : change.edit.Proper := by
  rw [Replacement.edit]
  split
  · rename_i proper
    simpa [isProper, Proper] using proper
  · trivial

theorem map_change_edit {changes : List (Replacement α)}
    (forward : ∀ change ∈ changes, change.start ≤ change.stop) :
    (changes.map edit).map Edit.change = changes := by
  rw [List.map_map]
  exact (List.map_congr_left fun change found => change_edit (forward change found)).trans
    (List.map_id changes)

/-! ## What is inserted at a place -/

theorem at_of_insertsAt {edit : Edit α} {place : Nat} (proper : edit.Proper)
    (here : edit.change.insertsAt place) :
    edit.leftAt place ++ edit.rightAt place = edit.change.content := by
  cases edit with
  | replace start stop content =>
      have bound : start < stop := proper
      simp only [change, insertsAt, Bool.and_eq_true, beq_iff_eq] at here
      omega
  | _ => simp_all [change, insertsAt, leftAt, rightAt]

theorem at_of_not_insertsAt {edit : Edit α} {place : Nat}
    (other : edit.change.insertsAt place = false) :
    edit.leftAt place = [] ∧ edit.rightAt place = [] := by
  cases edit <;> simp_all [change, insertsAt, leftAt, rightAt]

/-- Where no more than one edit inserts, its content is what is inserted. -/
theorem insertedAt_eq {edits : List (Edit α)} {place : Nat}
    (proper : ∀ edit ∈ edits, edit.Proper)
    (single : ((edits.map change).filter (insertsAt place)).length ≤ 1) :
    insertedAt edits place =
      ((edits.map change).filter (insertsAt place)).flatMap Replacement.content := by
  induction edits with
  | nil => rfl
  | cons edit edits induction =>
      rw [List.map_cons] at single ⊢
      have rest_proper := fun found member => proper found (List.mem_cons_of_mem edit member)
      cases here : edit.change.insertsAt place with
      | false =>
          obtain ⟨left, right⟩ := at_of_not_insertsAt here
          rw [List.filter_cons_of_neg (by simp [here])] at single ⊢
          rw [← induction rest_proper single]
          simp [insertedAt, left, right]
      | true =>
          rw [List.filter_cons_of_pos here] at single ⊢
          have none_else : (edits.map change).filter (insertsAt place) = [] := by
            simpa using single
          have rest := induction rest_proper (by simp [none_else])
          simp only [insertedAt, none_else, List.flatMap_nil, List.append_eq_nil_iff] at rest
          have content := at_of_insertsAt (proper edit List.mem_cons_self) here
          simp [insertedAt, none_else, rest, content]

/-- Changes in order insert no more than once at a place. -/
theorem length_insertions_le {changes : List (Replacement α)} (ordered : changes.Pairwise Before)
    (place : Nat) : (changes.filter (insertsAt place)).length ≤ 1 := by
  have inserts : (changes.filter (insertsAt place)).Pairwise Before := ordered.filter _
  have here : ∀ change ∈ changes.filter (insertsAt place), change.insertsAt place :=
    fun change found => (List.mem_filter.mp found).2
  generalize changes.filter (insertsAt place) = found at inserts here
  match found with
  | [] => exact Nat.zero_le 1
  | [_] => exact Nat.le_refl 1
  | first :: second :: _ =>
      have apart := (List.pairwise_cons.mp inserts).1 second (by simp)
      have first_here := here first (by simp)
      have second_here := here second (by simp)
      simp only [insertsAt, Bool.and_eq_true, beq_iff_eq] at first_here second_here
      simp only [Before] at apart
      omega

theorem eq_of_perm_of_length_le {found changes : List (Replacement α)} (perm : found.Perm changes)
    (single : changes.length ≤ 1) : found = changes := by
  match changes with
  | [] => exact perm.eq_nil
  | [only] => exact List.perm_singleton.mp perm
  | _ :: _ :: _ => simp at single

/-- Edits with the same changes insert the same at each place. -/
theorem insertedAt_perm {edits : List (Edit α)} {changes : List (Replacement α)}
    (proper : ∀ edit ∈ edits, edit.Proper) (perm : (edits.map change).Perm changes)
    (ordered : changes.Pairwise Before)
    (forward : ∀ change ∈ changes, change.start ≤ change.stop) (place : Nat) :
    insertedAt edits place = insertedAt (changes.map Replacement.edit) place := by
  have single := length_insertions_le ordered place
  have same : (edits.map change).filter (insertsAt place) = changes.filter (insertsAt place) :=
    eq_of_perm_of_length_le (perm.filter _) single
  rw [insertedAt_eq proper (by rwa [same]), insertedAt_eq, same, map_change_edit forward]
  · intro edit found
    obtain ⟨change, -, rfl⟩ := List.mem_map.mp found
    exact proper_edit change
  · rwa [map_change_edit forward]

/-! ## What is replaced -/

/-- The stretches that edits replace are those of the changes that are no insertions. -/
theorem filterMap_replacement? {edits : List (Edit α)} (proper : ∀ edit ∈ edits, edit.Proper) :
    edits.filterMap replacement? = (edits.map change).filter isProper := by
  induction edits with
  | nil => rfl
  | cons edit edits induction =>
      have rest := induction fun found member => proper found (List.mem_cons_of_mem edit member)
      cases edit with
      | replace start stop content =>
          have bound : start < stop := proper _ List.mem_cons_self
          simp [replacement?, change, isProper, bound, rest]
      | insertLeft place content =>
          rw [List.filterMap_cons_none rfl, rest]
          simp [change, isProper]
      | insertRight place content =>
          rw [List.filterMap_cons_none rfl, rest]
          simp [change, isProper]

/-- Changes in order that are no insertions begin one after the other. -/
theorem starts_ascend {changes : List (Replacement α)} (ordered : changes.Pairwise Before) :
    (changes.filter isProper).Pairwise fun first second =>
      first.start < second.start ∧ first.stop ≤ second.start ∧ second.start < second.stop := by
  refine (ordered.filter isProper).imp_of_mem ?_
  intro first second first_found second_found apart
  have first_proper := (List.mem_filter.mp first_found).2
  have second_proper := (List.mem_filter.mp second_found).2
  simp only [isProper, decide_eq_true_eq] at first_proper second_proper
  have bound := apart.1
  omega

/-- The stretches that edits replace, by the places where they begin, are those of the changes in
order. -/
theorem replacements_eq {edits : List (Edit α)} {changes : List (Replacement α)}
    (proper : ∀ edit ∈ edits, edit.Proper) (perm : (edits.map change).Perm changes)
    (ordered : changes.Pairwise Before) : replacements edits = changes.filter isProper := by
  have ascending := starts_ascend ordered
  have apart : (changes.filter isProper).Pairwise fun first second => first.start ≠ second.start :=
    ascending.imp fun bounds => Nat.ne_of_lt bounds.1
  have stretches : (edits.filterMap replacement?).Perm (changes.filter isProper) := by
    rw [filterMap_replacement? proper]
    exact perm.filter isProper
  have sorted := (List.mergeSort_perm (edits.filterMap replacement?)
    fun left right => left.start ≤ right.start).trans stretches
  refine sorted.eq_of_pairwise ?_ (List.pairwise_mergeSort ?_ ?_ _)
    (ascending.imp fun bounds => decide_eq_true (Nat.le_of_lt bounds.1))
  · intro first second first_found second_found lower upper
    -- Two of the stretches that begin at one place are one.
    by_contra different
    have symm : Std.Symm fun first second : Replacement α => first.start ≠ second.start :=
      ⟨fun _ _ => Ne.symm⟩
    have starts := apart.forall (sorted.mem_iff.mp first_found) second_found different
    simp only [decide_eq_true_eq] at lower upper
    omega
  · intro first second third lower upper
    simp only [decide_eq_true_eq] at lower upper ⊢
    omega
  · intro first second
    simp only [Bool.or_eq_true, decide_eq_true_eq]
    omega

theorem conflict?_none {stretches : List (Replacement α)}
    (apart : stretches.Pairwise fun first second => first.stop ≤ second.start) :
    conflict? stretches = none := by
  induction stretches with
  | nil => rfl
  | cons first rest induction =>
      obtain ⟨behind, rest_apart⟩ := List.pairwise_cons.mp apart
      cases rest with
      | nil => rfl
      | cons second rest =>
          have bound := behind second List.mem_cons_self
          rw [conflict?, if_neg (by omega)]
          exact induction rest_apart

/-! ## Making the edits -/

theorem withInsertions_congr {edits others : List (Edit α)} {place : Nat}
    (same : ∀ later, place ≤ later → insertedAt edits later = insertedAt others later)
    (segment : List α) : withInsertions edits place segment = withInsertions others place segment := by
  induction segment generalizing place with
  | nil => exact same place (Nat.le_refl place)
  | cons element rest induction =>
      rw [withInsertions, withInsertions, same place (Nat.le_refl place),
        induction fun later bound => same later (by omega)]

theorem withInsertions_none {edits : List (Edit α)} {place : Nat} {segment : List α}
    (none : ∀ later, place ≤ later → later ≤ place + segment.length → insertedAt edits later = []) :
    withInsertions edits place segment = segment := by
  induction segment generalizing place with
  | nil => exact none place (Nat.le_refl place) (Nat.le_add_right _ _)
  | cons element rest induction =>
      rw [withInsertions, none place (Nat.le_refl place) (Nat.le_add_right _ _), List.nil_append,
        induction fun later bound end_bound => none later (by omega) ?_]
      rw [List.length_cons]
      omega

theorem insertedAt_insertLeft (place : Nat) (content : List α) (edits : List (Edit α)) :
    insertedAt (.insertLeft place content :: edits) place = content ++ insertedAt edits place := by
  simp [insertedAt, leftAt, rightAt]

theorem insertedAt_insertLeft_of_ne {place other : Nat} (apart : place ≠ other) (content : List α)
    (edits : List (Edit α)) :
    insertedAt (.insertLeft place content :: edits) other = insertedAt edits other := by
  simp [insertedAt, leftAt, rightAt, apart]

theorem insertedAt_replace (start stop : Nat) (content : List α) (edits : List (Edit α))
    (place : Nat) :
    insertedAt (.replace start stop content :: edits) place = insertedAt edits place := by
  simp [insertedAt, leftAt, rightAt]

/-- An insertion before all others splits the segment in which it stands. -/
theorem withInsertions_insertLeft {edits : List (Edit α)} {here place : Nat} {segment : List α}
    (content : List α) (lower : place ≤ here) (upper : here ≤ place + segment.length)
    (first : ∀ earlier ≤ here, insertedAt edits earlier = []) :
    withInsertions (.insertLeft here content :: edits) place segment =
      segment.take (here - place) ++ content ++
        withInsertions edits here (segment.drop (here - place)) := by
  induction segment generalizing place with
  | nil =>
      obtain rfl : place = here := Nat.le_antisymm lower (by simpa using upper)
      simp [withInsertions, insertedAt_insertLeft, first place (Nat.le_refl place)]
  | cons element rest induction =>
      rw [List.length_cons] at upper
      rcases Nat.eq_or_lt_of_le lower with rfl | further
      · have behind : withInsertions (.insertLeft place content :: edits) (place + 1) rest =
            withInsertions edits (place + 1) rest :=
          withInsertions_congr (fun later bound =>
            insertedAt_insertLeft_of_ne (by omega) content edits) rest
        simp [withInsertions, insertedAt_insertLeft, first place (Nat.le_refl place), behind]
      · have skipped : here - place = (here - (place + 1)) + 1 := by omega
        rw [withInsertions, insertedAt_insertLeft_of_ne (by omega), first place lower,
          induction further (by omega), skipped]
        simp

theorem applyFrom_congr {edits others : List (Edit α)} {place : Nat}
    (same : ∀ later, place ≤ later → insertedAt edits later = insertedAt others later)
    (source : List α) {stretches : List (Replacement α)}
    (later : ∀ stretch ∈ stretches, place ≤ stretch.stop)
    (ordered : stretches.Pairwise fun first second => first.stop ≤ second.stop) :
    applyFrom edits source place stretches = applyFrom others source place stretches := by
  induction stretches generalizing place with
  | nil => exact withInsertions_congr same _
  | cons next rest induction =>
      obtain ⟨behind, rest_ordered⟩ := List.pairwise_cons.mp ordered
      have bound := later next List.mem_cons_self
      rw [applyFrom, applyFrom, withInsertions_congr same,
        induction (fun place further => same place (by omega)) behind rest_ordered]

/-- An insertion before all else can be made before the other edits. -/
theorem applyFrom_insertLeft {edits : List (Edit α)} {source : List α} {here place : Nat}
    {stretches : List (Replacement α)} (content : List α) (lower : place ≤ here)
    (upper : here ≤ source.length) (first : ∀ earlier ≤ here, insertedAt edits earlier = [])
    (behind : ∀ stretch ∈ stretches, here ≤ stretch.start ∧ stretch.start < stretch.stop)
    (ordered : stretches.Pairwise fun first second => first.stop ≤ second.stop) :
    applyFrom (.insertLeft here content :: edits) source place stretches =
      (source.drop place).take (here - place) ++ content ++
        applyFrom edits source here stretches := by
  cases stretches with
  | nil =>
      have inside : here ≤ place + (source.drop place).length := by
        rw [List.length_drop]
        omega
      rw [applyFrom, withInsertions_insertLeft content lower inside first, List.drop_drop, applyFrom,
        Nat.add_sub_cancel' lower]
  | cons next rest =>
      obtain ⟨rest_behind, rest_ordered⟩ := List.pairwise_cons.mp ordered
      obtain ⟨start_bound, stop_bound⟩ := behind next List.mem_cons_self
      have same : ∀ later, next.stop ≤ later →
          insertedAt (.insertLeft here content :: edits) later = insertedAt edits later :=
        fun later bound => insertedAt_insertLeft_of_ne (by omega) content edits
      have segment_inside :
          here ≤ place + ((source.drop place).take (next.start - place)).length := by
        rw [List.length_take, List.length_drop]
        omega
      have front : ((source.drop place).take (next.start - place)).take (here - place) =
          (source.drop place).take (here - place) := by
        rw [List.take_take, Nat.min_eq_left (by omega)]
      have back : ((source.drop place).take (next.start - place)).drop (here - place) =
          (source.drop here).take (next.start - here) := by
        rw [List.drop_take, List.drop_drop, Nat.add_sub_cancel' lower,
          show next.start - place - (here - place) = next.start - here by omega]
      rw [applyFrom, applyFrom, withInsertions_insertLeft content lower segment_inside first, front,
        back, applyFrom_congr same source rest_behind rest_ordered]
      simp only [List.append_assoc]

theorem insertedAt_none {changes : List (Replacement α)} {place : Nat}
    (forward : ∀ change ∈ changes, change.start ≤ change.stop)
    (other : ∀ change ∈ changes, change.insertsAt place = false) :
    insertedAt (changes.map Replacement.edit) place = [] := by
  have none_here : changes.filter (insertsAt place) = [] :=
    List.filter_eq_nil_iff.mpr fun change found => by simp [other change found]
  have proper : ∀ edit ∈ changes.map Replacement.edit, edit.Proper := by
    intro edit found
    obtain ⟨change, -, rfl⟩ := List.mem_map.mp found
    exact proper_edit change
  rw [insertedAt_eq proper, map_change_edit forward, none_here]
  · rfl
  · simp [map_change_edit forward, none_here]

/-- Up to where a change begins, none of those after it inserts anything. -/
theorem insertedAt_before {next : Replacement α} {rest : List (Replacement α)} {place : Nat}
    (behind : ∀ change ∈ rest, next.Before change)
    (rest_forward : ∀ change ∈ rest, change.start ≤ change.stop) (early : place ≤ next.start) :
    insertedAt (rest.map Replacement.edit) place = [] := by
  refine insertedAt_none rest_forward fun change found => ?_
  have apart := (behind change found).2
  simp only [insertsAt, Bool.and_eq_false_iff, beq_eq_false_iff_ne]
  omega

/-- A replacement before all else can be made before the other edits. -/
theorem applyFrom_replace {edits : List (Edit α)} {source : List α} {place : Nat}
    {next : Replacement α} {rest : List (Replacement α)} (lower : place ≤ next.start)
    (first : ∀ earlier ≤ next.start, insertedAt edits earlier = [])
    (behind : ∀ stretch ∈ rest, next.stop ≤ stretch.stop)
    (ordered : rest.Pairwise fun first second => first.stop ≤ second.stop) :
    applyFrom (.replace next.start next.stop next.content :: edits) source place (next :: rest) =
      (source.drop place).take (next.start - place) ++ next.content ++
        applyFrom edits source next.stop rest := by
  have none_inside : ∀ earlier, place ≤ earlier →
      earlier ≤ place + ((source.drop place).take (next.start - place)).length →
        insertedAt (.replace next.start next.stop next.content :: edits) earlier = [] := by
    intro earlier _ upper
    rw [List.length_take] at upper
    rw [insertedAt_replace]
    exact first earlier (by omega)
  rw [applyFrom, withInsertions_none none_inside,
    applyFrom_congr (fun later _ => insertedAt_replace _ _ _ _ later) source behind ordered]

/-- Changes in order are one splice. -/
theorem applyFrom_eq_splice {source : List α} {changes : List (Replacement α)} {place : Nat}
    (ordered : changes.Pairwise Before)
    (inside : ∀ change ∈ changes, change.start ≤ change.stop ∧ change.stop ≤ source.length)
    (later : ∀ change ∈ changes, place ≤ change.start) :
    applyFrom (changes.map Replacement.edit) source place (changes.filter isProper) =
      splice source place changes := by
  induction changes generalizing place with
  | nil =>
      have nothing := @withInsertions_none α [] place (source.drop place) fun _ _ _ => rfl
      exact nothing
  | cons next rest induction =>
      obtain ⟨behind, rest_ordered⟩ := List.pairwise_cons.mp ordered
      obtain ⟨forward, bound⟩ := inside next List.mem_cons_self
      have next_later := later next List.mem_cons_self
      have rest_inside := fun change found => inside change (List.mem_cons_of_mem next found)
      have rest_forward := fun change found => (rest_inside change found).1
      have rest_spliced := induction rest_ordered rest_inside fun change found =>
        (behind change found).1
      have first := fun earlier early =>
        @insertedAt_before _ _ _ earlier behind rest_forward early
      have stops_ascend : (rest.filter isProper).Pairwise fun first second =>
          first.stop ≤ second.stop :=
        (starts_ascend rest_ordered).imp fun bounds => by omega
      rw [splice, List.map_cons, ← rest_spliced, Replacement.edit]
      cases proper : next.isProper with
      | true =>
          rw [List.filter_cons_of_pos proper, if_pos rfl]
          refine applyFrom_replace next_later first (fun stretch found => ?_) stops_ascend
          have stretch_found := (List.mem_filter.mp found).1
          exact Nat.le_trans (behind stretch stretch_found).1 (rest_forward stretch stretch_found)
      | false =>
          rw [List.filter_cons_of_neg (by simp [proper]), if_neg Bool.false_ne_true]
          simp only [isProper, decide_eq_false_iff_not] at proper
          obtain same : next.stop = next.start := by omega
          rw [same]
          refine applyFrom_insertLeft next.content next_later (by omega) first
            (fun stretch found => ?_) stops_ascend
          obtain ⟨stretch_found, stretch_proper⟩ := List.mem_filter.mp found
          have apart := (behind stretch stretch_found).1
          simp only [isProper, decide_eq_true_eq] at stretch_proper
          omega

/-- Edits whose changes can be put in order make these changes, and are not in conflict. -/
theorem apply_eq_splice {edits : List (Edit α)} {source : List α} {changes : List (Replacement α)}
    (proper : ∀ edit ∈ edits, edit.Proper) (perm : (edits.map change).Perm changes)
    (ordered : changes.Pairwise Before)
    (inside : ∀ change ∈ changes, change.start ≤ change.stop ∧ change.stop ≤ source.length) :
    apply edits source = .ok (splice source 0 changes) := by
  have ascending := starts_ascend ordered
  rw [apply, replacements_eq proper perm ordered,
    conflict?_none (ascending.imp fun bounds => bounds.2.1)]
  have forward := fun change found => (inside change found).1
  have same := insertedAt_perm proper perm ordered forward
  have spliced := applyFrom_eq_splice ordered inside fun change _ => Nat.zero_le change.start
  rw [← spliced]
  exact congrArg Except.ok (applyFrom_congr (fun place _ => same place) source
    (fun stretch _ => Nat.zero_le stretch.stop) (ascending.imp fun bounds => by omega))

end Edit

namespace Replacement

/-- Changes can be put in order in one way only. -/
theorem eq_of_perm {α : Type} {first second : List (Replacement α)} (perm : first.Perm second)
    (first_ordered : first.Pairwise Before) (second_ordered : second.Pairwise Before)
    (forward : ∀ change ∈ first, change.start ≤ change.stop) : first = second := by
  refine perm.eq_of_pairwise (fun change other found _ before after => ?_) first_ordered
    second_ordered
  obtain ⟨_, _⟩ := before
  obtain ⟨_, _⟩ := after
  have bound := forward change found
  omega

/-- What every change puts in stands in the result. -/
theorem exists_content {α : Type} {source : List α} {place : Nat} {changes : List (Replacement α)}
    {change : Replacement α} (member : change ∈ changes) :
    ∃ front back, splice source place changes = front ++ change.content ++ back := by
  induction changes generalizing place with
  | nil => cases member
  | cons next rest induction =>
      rw [splice]
      rcases List.mem_cons.mp member with rfl | later
      · exact ⟨_, _, rfl⟩
      · obtain ⟨front, back, rest_eq⟩ := @induction next.stop later
        exact ⟨(source.drop place).take (next.start - place) ++ next.content ++ front, back, by
          simp only [rest_eq, List.append_assoc]⟩

/-- Up to a place before all changes a sequence is copied. -/
theorem splice_eq_append {α : Type} {source : List α} {place middle : Nat}
    {changes : List (Replacement α)} (lower : place ≤ middle)
    (behind : ∀ change ∈ changes, middle ≤ change.start) :
    splice source place changes = (source.take middle).drop place ++ splice source middle changes := by
  rw [List.drop_take]
  cases changes with
  | nil =>
      rw [splice, splice, ← Nat.add_sub_cancel' lower, Nat.add_sub_cancel_left, ← List.drop_drop,
        List.take_append_drop]
  | cons next rest =>
      have bound := behind next List.mem_cons_self
      have parts : next.start - place = (middle - place) + (next.start - middle) := by omega
      rw [splice, splice, parts, List.take_add, List.drop_drop, Nat.add_sub_cancel' lower]
      simp only [List.append_assoc]

/-- Changes before a place are made apart from those behind it. -/
theorem splice_append {α : Type} {source : List α} {place middle : Nat}
    {first second : List (Replacement α)} (lower : place ≤ middle)
    (before : ∀ change ∈ first, change.start ≤ change.stop ∧ change.stop ≤ middle)
    (behind : ∀ change ∈ second, middle ≤ change.start) :
    splice source place (first ++ second) =
      splice (source.take middle) place first ++ splice source middle second := by
  induction first generalizing place with
  | nil => exact splice_eq_append lower behind
  | cons next rest induction =>
      obtain ⟨forward, bound⟩ := before next List.mem_cons_self
      have rest_spliced := induction bound fun change found =>
        before change (List.mem_cons_of_mem next found)
      have copied : ((source.take middle).drop place).take (next.start - place) =
          (source.drop place).take (next.start - place) := by
        rw [List.drop_take, List.take_take, Nat.min_eq_left (by omega)]
      rw [List.cons_append, splice, splice, rest_spliced, copied]
      simp only [List.append_assoc]

/-- What is put before and behind a stretch encloses the changed stretch. -/
theorem splice_enclosed {α : Type} {source opening before behind closing : List α}
    {place start low high stop : Nat} {earlier inner later : List (Replacement α)}
    (filled : low ≤ high)
    (inside : ∀ change ∈ inner, change.start ≤ change.stop ∧ change.stop ≤ high)
    (after : ∀ change ∈ later, high ≤ change.start) :
    ∃ front back,
      splice source place (earlier ++ (⟨start, low, opening⟩ :: ⟨low, low, before⟩ :: inner ++
          [⟨high, high, behind⟩, ⟨high, stop, closing⟩]) ++ later) =
        front ++ (opening ++ before) ++ splice (source.take high) low inner ++
          (behind ++ closing) ++ back := by
  induction earlier generalizing place with
  | nil =>
      have ends : ∀ change ∈ ⟨high, high, behind⟩ :: ⟨high, stop, closing⟩ :: later,
          high ≤ change.start :=
        List.forall_mem_cons.mpr ⟨Nat.le_refl high,
          List.forall_mem_cons.mpr ⟨Nat.le_refl high, after⟩⟩
      have split : splice source low (inner ++ ⟨high, high, behind⟩ :: ⟨high, stop, closing⟩ :: later) =
          splice (source.take high) low inner ++
            splice source high (⟨high, high, behind⟩ :: ⟨high, stop, closing⟩ :: later) :=
        splice_append filled inside ends
      refine ⟨(source.drop place).take (start - place), splice source stop later, ?_⟩
      simp only [List.nil_append, List.cons_append, List.append_assoc, splice, split, Nat.sub_self,
        List.take_zero]
  | cons next earlier induction =>
      obtain ⟨front, back, rest_eq⟩ := @induction next.stop
      refine ⟨(source.drop place).take (next.start - place) ++ next.content ++ front, back, ?_⟩
      simp only [List.cons_append, splice] at rest_eq ⊢
      rw [rest_eq]
      simp only [List.append_assoc]

/-! ## Changes to text -/

/-- Changes to a text that are text themselves and begin and end between its characters make
text. -/
theorem exists_splice_encode {text : List Char} {place : Nat}
    {changes : List (Replacement UInt8)} (cut : Text.IsCut text place)
    (ordered : changes.Pairwise Before)
    (inside : ∀ change ∈ changes, place ≤ change.start ∧ Text.IsCut text change.start ∧
      Text.IsCut text change.stop ∧ ∃ written, change.content = Text.encode written) :
    ∃ spliced, splice (Text.encode text) place changes = Text.encode spliced := by
  induction changes generalizing place with
  | nil => exact cut.exists_drop
  | cons next rest induction =>
      obtain ⟨behind, rest_ordered⟩ := List.pairwise_cons.mp ordered
      obtain ⟨later, start_cut, stop_cut, written, written_eq⟩ := inside next List.mem_cons_self
      obtain ⟨kept, kept_eq⟩ := cut.exists_between start_cut later
      obtain ⟨spliced, spliced_eq⟩ := induction stop_cut rest_ordered fun change found =>
        ⟨(behind change found).1, (inside change (List.mem_cons_of_mem next found)).2⟩
      exact ⟨kept ++ written ++ spliced, by
        rw [splice, kept_eq, written_eq, spliced_eq, Text.encode_append, Text.encode_append]⟩

/-! ## Changes inside a stretch -/

variable {α : Type} {low middle high : Nat} {first second inner : List (Replacement α)}

/-- A change lies between two places and is no insertion at one of them. -/
structure Between (low high : Nat) (change : Replacement α) : Prop where
  /-- It begins inside. -/
  lower : low ≤ change.start
  /-- It begins before it ends. -/
  forward : change.start ≤ change.stop
  /-- It ends inside. -/
  upper : change.stop ≤ high
  /-- It is not all at the lower place. -/
  past : low < change.stop
  /-- It is not all at the upper place. -/
  ahead : change.start < high

/-- Changes between two places, one before the other. -/
structure InOrder (low high : Nat) (changes : List (Replacement α)) : Prop where
  /-- Each comes before those after it. -/
  ordered : changes.Pairwise Before
  /-- Each lies between the places. -/
  between : ∀ change ∈ changes, change.Between low high

theorem inOrder_nil : InOrder low high ([] : List (Replacement α)) :=
  ⟨.nil, by simp⟩

/-- A change of a whole stretch. -/
theorem inOrder_whole (filled : low < high) (content : List α) :
    InOrder low high [⟨low, high, content⟩] :=
  ⟨List.pairwise_singleton _ _, by simpa using ⟨Nat.le_refl low, Nat.le_of_lt filled,
    Nat.le_refl high, filled, filled⟩⟩

theorem Between.widen {low' high' : Nat} {change : Replacement α}
    (between : change.Between low high) (lower : low' ≤ low) (upper : high ≤ high') :
    change.Between low' high' := by
  obtain ⟨_, _, _, _, _⟩ := between
  constructor <;> omega

theorem InOrder.widen {low' high' : Nat} (inside : InOrder low high inner) (lower : low' ≤ low)
    (upper : high ≤ high') : InOrder low' high' inner :=
  ⟨inside.ordered, fun change found => (inside.between change found).widen lower upper⟩

theorem InOrder.append (front : InOrder low middle first) (back : InOrder middle high second)
    (lower : low ≤ middle) (upper : middle ≤ high) : InOrder low high (first ++ second) where
  ordered := by
    refine List.pairwise_append.mpr ⟨front.ordered, back.ordered, ?_⟩
    intro change found other other_found
    obtain ⟨_, _, _, _, _⟩ := front.between change found
    obtain ⟨_, _, _, _, _⟩ := back.between other other_found
    constructor <;> omega
  between := by
    intro change found
    rcases List.mem_append.mp found with earlier | later
    · exact (front.between change earlier).widen (Nat.le_refl low) upper
    · exact (back.between change later).widen lower (Nat.le_refl high)

/-- Insertions right before and right behind a stretch go between the changes inside it and those
of the stretches around it. -/
theorem InOrder.enclose {start stop : Nat} (inside : InOrder low high inner)
    (opened : start < low) (filled : low < high) (closed : high < stop)
    (opening before behind closing : List α) :
    InOrder start stop
      (⟨start, low, opening⟩ :: ⟨low, low, before⟩ :: inner ++
        [⟨high, high, behind⟩, ⟨high, stop, closing⟩]) where
  ordered := by
    have bounds := inside.between
    refine List.pairwise_append.mpr ⟨?_, by simp [Before, closed], ?_⟩
    · refine List.pairwise_cons.mpr ⟨?_, List.pairwise_cons.mpr ⟨?_, inside.ordered⟩⟩
      · refine List.forall_mem_cons.mpr ⟨⟨Nat.le_refl low, opened⟩, fun change found => ?_⟩
        exact ⟨(bounds change found).lower, Nat.lt_trans opened (bounds change found).past⟩
      · exact fun change found => ⟨(bounds change found).lower, (bounds change found).past⟩
    · intro change found last last_found
      have ends : last.start = high ∧ high ≤ last.stop := by
        simp only [List.mem_cons, List.not_mem_nil, or_false] at last_found
        rcases last_found with rfl | rfl
        · exact ⟨rfl, Nat.le_refl high⟩
        · exact ⟨rfl, Nat.le_of_lt closed⟩
      have begins : change.stop ≤ high ∧ change.start < high := by
        rcases List.mem_cons.mp found with rfl | found
        · exact ⟨Nat.le_of_lt filled, Nat.lt_trans opened filled⟩
        · rcases List.mem_cons.mp found with rfl | found
          · exact ⟨Nat.le_of_lt filled, filled⟩
          · exact ⟨(bounds change found).upper, (bounds change found).ahead⟩
      constructor <;> omega
  between := by
    refine List.forall_mem_append.mpr ⟨List.forall_mem_cons.mpr ⟨?_, List.forall_mem_cons.mpr ⟨?_, ?_⟩⟩, ?_⟩
    · constructor <;> simp only <;> omega
    · constructor <;> simp only <;> omega
    · intro change found
      exact (inside.between change found).widen (Nat.le_of_lt opened) (Nat.le_of_lt closed)
    · simp only [List.forall_mem_cons]
      refine ⟨?_, ?_, by simp⟩ <;> constructor <;> simp only <;> omega

end Replacement

end IslandSlots
