import IslandSlots.Proofs.Text.Splicing
import Mathlib.Data.List.Basic
import Mathlib.Order.Bounds.Basic

/-!
# Edits place by place

What edits make of a sequence, said for each of its places on its own: what is inserted there unless
a replaced stretch hides the place, then what replaces the stretch that begins there, then the
element behind the place unless a stretch covers it. Edits are in conflict where two stretches meet,
and at no other place than the first one where that shows. So the order in which edits are given
matters only among insertions on one side of one place.
-/

namespace IslandSlots

namespace Replacement

variable {α : Type}

/-- Two stretches have an element in common, and the later one begins at the given place. -/
def MeetsAt (offset : Nat) (first second : Replacement α) : Prop :=
  max first.start second.start < min first.stop second.stop ∧
    max first.start second.start = offset

/-- The places where two of some stretches meet. -/
def meetings (stretches : List (Replacement α)) : Set Nat :=
  {offset | ∃ first second, [first, second].Sublist stretches ∧ MeetsAt offset first second}

/-- Whether a place is strictly inside a stretch. -/
def hides (place : Nat) (stretch : Replacement α) : Bool :=
  stretch.start < place && place < stretch.stop

/-- Whether the element behind a place is in a stretch. -/
def covers (place : Nat) (stretch : Replacement α) : Bool :=
  stretch.start ≤ place && place < stretch.stop

/-- What replaces a stretch, at the place where the stretch begins. -/
def contentAt (place : Nat) (stretch : Replacement α) : List α :=
  if stretch.start = place then stretch.content else []

end Replacement

namespace Edit

open Replacement

variable {α : Type}

/-- What stands at a place of the result when the given stretches are replaced. -/
def writtenAt (edits : List (Edit α)) (stretches : List (Replacement α)) (source : List α)
    (place : Nat) : List α :=
  (if stretches.any (hides place) then [] else insertedAt edits place) ++
    stretches.flatMap (contentAt place) ++
      if stretches.any (covers place) then [] else source[place]?.toList

/-- The result, place by place from the one before the sequence to the one behind it. -/
def placewise (edits : List (Edit α)) (source : List α) : List α :=
  (List.range (source.length + 1)).flatMap
    (writtenAt edits (edits.filterMap replacement?) source)

/-! ## Conflicts -/

/-- Where stretches meet does not depend on their order. -/
theorem meetings_perm {stretches others : List (Replacement α)} (perm : stretches.Perm others) :
    meetings stretches = meetings others := by
  ext offset
  have symmetric {first second : Replacement α} (apart : ¬MeetsAt offset first second) :
      ¬MeetsAt offset second first := by
    rwa [MeetsAt, max_comm second.start, min_comm second.stop]
  have pairs := @List.Perm.pairwise_iff _ (fun first second => ¬MeetsAt offset first second)
    symmetric _ _ perm
  rw [List.pairwise_iff_forall_sublist, List.pairwise_iff_forall_sublist] at pairs
  simpa [meetings] using not_congr pairs

/-- Stretches in order that are not in conflict end before the next one begins. -/
theorem apart_of_conflict?_none {stretches : List (Replacement α)}
    (ordered : stretches.Pairwise fun first second => first.start ≤ second.start)
    (free : conflict? stretches = none) :
    stretches.Pairwise fun first second => first.stop ≤ second.start := by
  induction stretches with
  | nil => exact .nil
  | cons first rest induction =>
      cases rest with
      | nil => exact List.pairwise_singleton _ first
      | cons second rest =>
          rw [conflict?] at free
          split at free
          · cases free
          · rename_i bound
            obtain ⟨-, rest_ordered⟩ := List.pairwise_cons.mp ordered
            obtain ⟨behind, -⟩ := List.pairwise_cons.mp rest_ordered
            refine List.pairwise_cons.mpr ⟨?_, induction rest_ordered free⟩
            have next : first.stop ≤ second.start := Nat.le_of_not_lt bound
            exact List.forall_mem_cons.mpr
              ⟨next, fun later found => Nat.le_trans next (behind later found)⟩

/-- The conflict that is found first is at the first place where stretches meet. -/
theorem isLeast_of_conflict? {stretches : List (Replacement α)} {conflict : EditConflict}
    (ordered : stretches.Pairwise fun first second => first.start ≤ second.start)
    (forward : ∀ stretch ∈ stretches, stretch.start < stretch.stop)
    (found : conflict? stretches = some conflict) :
    IsLeast (meetings stretches) conflict.offset := by
  induction stretches with
  | nil => cases found
  | cons first rest induction =>
      cases rest with
      | nil => cases found
      | cons second rest =>
          obtain ⟨behind_first, rest_ordered⟩ := List.pairwise_cons.mp ordered
          obtain ⟨behind_second, -⟩ := List.pairwise_cons.mp rest_ordered
          obtain ⟨first_forward, rest_forward⟩ := List.forall_mem_cons.mp forward
          have first_second := behind_first second List.mem_cons_self
          have lower : ∀ later ∈ second :: rest, second.start ≤ later.start :=
            List.forall_mem_cons.mpr ⟨Nat.le_refl _, behind_second⟩
          rw [conflict?] at found
          split at found
          · rename_i meet
            obtain rfl := Option.some.inj found
            have second_forward := rest_forward second List.mem_cons_self
            constructor
            · refine ⟨first, second, by simp, ?_, max_eq_right first_second⟩
              rw [max_eq_right first_second]
              exact lt_min meet second_forward
            · rintro offset ⟨left, right, pair, -, rfl⟩
              -- The second stretch of a pair is not the first one of all.
              have later : right ∈ second :: rest := pair.tail.subset List.mem_cons_self
              exact Nat.le_trans (lower right later) (Nat.le_max_right _ _)
          · rename_i bound
            obtain ⟨⟨left, right, pair, meet⟩, least⟩ := induction rest_ordered rest_forward found
            constructor
            · exact ⟨left, right, pair.cons first, meet⟩
            · rintro offset ⟨left, right, pair, meet⟩
              cases pair with
              | cons _ pair => exact least ⟨left, right, pair, meet⟩
              | cons_cons _ pair =>
                  have later := lower right (pair.subset List.mem_cons_self)
                  have common := meet.1
                  omega

theorem meetings_of_apart {stretches : List (Replacement α)}
    (apart : stretches.Pairwise fun first second => first.stop ≤ second.start) :
    meetings stretches = ∅ := by
  apply Set.eq_empty_of_forall_notMem
  rintro offset ⟨first, second, pair, meet⟩
  have bound := List.pairwise_iff_forall_sublist.mp apart pair
  have common := meet.1
  omega

theorem replacements_perm (edits : List (Edit α)) :
    (replacements edits).Perm (edits.filterMap replacement?) :=
  List.mergeSort_perm _ _

theorem replacements_ordered (edits : List (Edit α)) :
    (replacements edits).Pairwise fun first second => first.start ≤ second.start := by
  have sorted : (replacements edits).Pairwise
      fun first second => decide (first.start ≤ second.start) = true := by
    apply List.pairwise_mergeSort
    · intro first second third lower upper
      simp only [decide_eq_true_eq] at lower upper ⊢
      exact Nat.le_trans lower upper
    · intro first second
      simpa using Nat.le_total first.start second.start
  exact sorted.imp of_decide_eq_true

theorem forward_of_proper {edits : List (Edit α)} (proper : ∀ edit ∈ edits, edit.Proper) :
    ∀ stretch ∈ edits.filterMap replacement?, stretch.start < stretch.stop := by
  intro stretch found
  rw [filterMap_replacement? proper] at found
  simpa [isProper] using (List.mem_filter.mp found).2

theorem replacements_forward {edits : List (Edit α)} (proper : ∀ edit ∈ edits, edit.Proper) :
    ∀ stretch ∈ replacements edits, stretch.start < stretch.stop :=
  fun stretch member =>
    forward_of_proper proper stretch ((replacements_perm edits).mem_iff.mp member)

/-- Edits are in conflict where two stretches meet first. -/
theorem apply_eq_error_iff {edits : List (Edit α)} (source : List α) (offset : Nat)
    (proper : ∀ edit ∈ edits, edit.Proper) :
    apply edits source = .error ⟨offset⟩ ↔
      IsLeast (meetings (edits.filterMap replacement?)) offset := by
  have perm := replacements_perm edits
  have ordered := replacements_ordered edits
  rw [← meetings_perm perm, apply]
  cases found : conflict? (replacements edits) with
  | none =>
      have apart := apart_of_conflict?_none ordered found
      simp [meetings_of_apart apart, IsLeast]
  | some conflict =>
      have least := isLeast_of_conflict? ordered (replacements_forward proper) found
      constructor
      · rintro same
        cases same
        exact least
      · intro other
        rw [other.unique least]

/-! ## The result -/

section Result

variable {edits : List (Edit α)} {source : List α}

/-- Insertions into a part of a sequence stand at its places. -/
theorem withInsertions_eq {place count : Nat} (inside : place + count ≤ source.length) :
    withInsertions edits place ((source.drop place).take count) =
      (List.range' place count).flatMap
          (fun here => insertedAt edits here ++ source[here]?.toList) ++
        insertedAt edits (place + count) := by
  induction count generalizing place with
  | zero => rfl
  | succ count induction =>
      have bound : place < source.length := by omega
      have same : place + 1 + count = place + (count + 1) := by omega
      rw [List.drop_eq_getElem_cons bound, List.take_succ_cons, withInsertions,
        induction (by omega), List.range'_succ, List.flatMap_cons, List.getElem?_eq_getElem bound,
        same]
      simp

variable {next : Replacement α} {rest stretches : List (Replacement α)} {place : Nat}

/-- Stretches that begin behind a place have no part in what stands there. -/
theorem untouched (behind : ∀ stretch ∈ stretches, place < stretch.start) :
    stretches.any (hides place) = false ∧ stretches.any (covers place) = false ∧
      stretches.flatMap (contentAt place) = [] := by
  refine ⟨?_, ?_, ?_⟩
  · simp only [List.any_eq_false, hides, Bool.and_eq_true, decide_eq_true_eq]
    intro stretch found
    have bound := behind stretch found
    omega
  · simp only [List.any_eq_false, covers, Bool.and_eq_true, decide_eq_true_eq]
    intro stretch found
    have bound := behind stretch found
    omega
  · rw [List.flatMap_eq_nil_iff]
    intro stretch found
    exact if_neg (Nat.ne_of_gt (behind stretch found))

/-- Before all stretches stand the insertions and the elements of the sequence. -/
theorem writtenAt_before (behind : ∀ stretch ∈ stretches, place < stretch.start) :
    writtenAt edits stretches source place = insertedAt edits place ++ source[place]?.toList := by
  obtain ⟨hidden, covered, nothing⟩ := untouched behind
  simp [writtenAt, hidden, covered, nothing]

/-- Where a stretch begins stand the insertions and what replaces the stretch. -/
theorem writtenAt_start (forward : next.start < next.stop)
    (behind : ∀ stretch ∈ rest, next.start < stretch.start) :
    writtenAt edits (next :: rest) source next.start =
      insertedAt edits next.start ++ next.content := by
  obtain ⟨hidden, covered, nothing⟩ := untouched behind
  simp [writtenAt, hidden, nothing, hides, covers, contentAt, forward]

/-- Strictly inside a stretch stands nothing. -/
theorem writtenAt_inside (lower : next.start < place) (upper : place < next.stop)
    (behind : ∀ stretch ∈ rest, place < stretch.start) :
    writtenAt edits (next :: rest) source place = [] := by
  obtain ⟨hidden, covered, nothing⟩ := untouched behind
  simp [writtenAt, nothing, hides, covers, contentAt, lower, upper, Nat.le_of_lt lower,
    Nat.ne_of_lt lower]

/-- Behind a stretch its replacement makes no difference. -/
theorem writtenAt_behind (forward : next.start < next.stop) (passed : next.stop ≤ place) :
    writtenAt edits (next :: rest) source place = writtenAt edits rest source place := by
  have started : next.start ≠ place := by omega
  simp [writtenAt, hides, covers, contentAt, Nat.not_lt.mpr passed, started]

theorem range'_append_of_le {low middle high : Nat} (lower : low ≤ middle) (upper : middle ≤ high) :
    List.range' low (high - low) =
      List.range' low (middle - low) ++ List.range' middle (high - middle) := by
  have length_eq : high - low = (middle - low) + (high - middle) := by omega
  rw [length_eq, ← List.range'_append_1, Nat.add_sub_cancel' lower]

/-- Insertions behind all stretches are made place by place. -/
theorem applyFrom_nil (inside : place ≤ source.length) :
    applyFrom edits source place [] =
      (List.range' place (source.length + 1 - place)).flatMap (writtenAt edits [] source) := by
  have last : List.range' place (source.length + 1 - place) =
      List.range' place (source.length - place) ++ [source.length] := by
    rw [range'_append_of_le inside (Nat.le_add_right _ 1), Nat.add_sub_cancel_left]
    rfl
  have all : (source.drop place).take (source.length - place) = source.drop place :=
    List.take_of_length_le (by rw [List.length_drop])
  have written : ∀ here, writtenAt edits [] source here =
      insertedAt edits here ++ source[here]?.toList :=
    fun here => writtenAt_before (List.forall_mem_nil _)
  rw [applyFrom, ← all, withInsertions_eq (by omega), last, List.flatMap_append,
    Nat.add_sub_cancel' inside]
  simp [funext written]

/-- Stretches in order are replaced place by place. -/
theorem applyFrom_eq (lower : ∀ stretch ∈ stretches, place ≤ stretch.start)
    (forward : ∀ stretch ∈ stretches, stretch.start < stretch.stop)
    (upper : ∀ stretch ∈ stretches, stretch.stop ≤ source.length)
    (apart : stretches.Pairwise fun first second => first.stop ≤ second.start)
    (inside : place ≤ source.length) :
    applyFrom edits source place stretches =
      (List.range' place (source.length + 1 - place)).flatMap
        (writtenAt edits stretches source) := by
  induction stretches generalizing place with
  | nil => exact applyFrom_nil inside
  | cons next rest induction =>
      obtain ⟨next_lower, -⟩ := List.forall_mem_cons.mp lower
      obtain ⟨next_forward, rest_forward⟩ := List.forall_mem_cons.mp forward
      obtain ⟨next_upper, rest_upper⟩ := List.forall_mem_cons.mp upper
      obtain ⟨behind, rest_apart⟩ := List.pairwise_cons.mp apart
      have before : (List.range' place (next.start - place)).flatMap
          (writtenAt edits (next :: rest) source) =
            (List.range' place (next.start - place)).flatMap
              (fun here => insertedAt edits here ++ source[here]?.toList) := by
        apply List.flatMap_congr
        intro here found
        have bound := (List.mem_range'_1.mp found).2
        apply writtenAt_before
        refine List.forall_mem_cons.mpr ⟨by omega, fun stretch member => ?_⟩
        have further := behind stretch member
        omega
      have start : writtenAt edits (next :: rest) source next.start =
          insertedAt edits next.start ++ next.content :=
        writtenAt_start next_forward fun stretch member =>
          Nat.lt_of_lt_of_le next_forward (behind stretch member)
      have hidden : (List.range' (next.start + 1) (next.stop - (next.start + 1))).flatMap
          (writtenAt edits (next :: rest) source) = [] := by
        rw [List.flatMap_eq_nil_iff]
        intro here found
        have bounds := List.mem_range'_1.mp found
        have within : here < next.stop := by omega
        exact writtenAt_inside bounds.1 within fun stretch member =>
          Nat.lt_of_lt_of_le within (behind stretch member)
      have after : (List.range' next.stop (source.length + 1 - next.stop)).flatMap
          (writtenAt edits (next :: rest) source) =
            (List.range' next.stop (source.length + 1 - next.stop)).flatMap
              (writtenAt edits rest source) := by
        apply List.flatMap_congr
        intro here found
        exact writtenAt_behind next_forward (List.mem_range'_1.mp found).1
      have places : List.range' place (source.length + 1 - place) =
          List.range' place (next.start - place) ++ ([next.start] ++
            List.range' (next.start + 1) (next.stop - (next.start + 1)) ++
              List.range' next.stop (source.length + 1 - next.stop)) := by
        rw [range'_append_of_le next_lower (by omega),
          range'_append_of_le (Nat.le_of_lt next_forward) (by omega),
          range'_append_of_le (Nat.le_add_right next.start 1) next_forward, Nat.add_sub_cancel_left]
        rfl
      rw [applyFrom, withInsertions_eq (by omega), Nat.add_sub_cancel' next_lower,
        induction behind rest_forward rest_upper rest_apart next_upper, places]
      simp only [List.flatMap_append, List.flatMap_singleton, before, start, hidden, after,
        List.append_assoc, List.nil_append]

/-- No more than one of some stretches apart begins at a place. -/
theorem length_starts_le (forward : ∀ stretch ∈ stretches, stretch.start < stretch.stop)
    (apart : stretches.Pairwise fun first second => first.stop ≤ second.start) (place : Nat) :
    (stretches.filter fun stretch => stretch.start = place).length ≤ 1 := by
  have starts := apart.filter fun stretch => stretch.start = place
  have here : ∀ stretch ∈ stretches.filter fun stretch => stretch.start = place,
      stretch.start = place ∧ stretch.start < stretch.stop := by
    intro stretch found
    obtain ⟨member, start_eq⟩ := List.mem_filter.mp found
    exact ⟨of_decide_eq_true start_eq, forward stretch member⟩
  generalize (stretches.filter fun stretch => stretch.start = place) = found at starts here
  match found with
  | [] => exact Nat.zero_le 1
  | [_] => exact Nat.le_refl 1
  | first :: second :: _ =>
      have bound := (List.pairwise_cons.mp starts).1 second List.mem_cons_self
      have first_here := here first List.mem_cons_self
      have second_here := here second (List.mem_cons_of_mem first List.mem_cons_self)
      omega

/-- What stands at a place does not depend on the order of stretches apart. -/
theorem writtenAt_perm {others : List (Replacement α)} (perm : others.Perm stretches)
    (forward : ∀ stretch ∈ stretches, stretch.start < stretch.stop)
    (apart : stretches.Pairwise fun first second => first.stop ≤ second.start) :
    writtenAt edits others source place = writtenAt edits stretches source place := by
  have contents (found : List (Replacement α)) : found.flatMap (contentAt place) =
      (found.filter fun stretch => stretch.start = place).flatMap Replacement.content := by
    induction found with
    | nil => rfl
    | cons stretch found induction =>
        by_cases here : stretch.start = place <;> simp [contentAt, here, induction]
  have starts := eq_of_perm_of_length_le (perm.filter fun stretch => stretch.start = place)
    (length_starts_le forward apart place)
  rw [writtenAt, writtenAt, perm.any_eq, perm.any_eq, contents, contents, starts]

end Result

section Apply

variable {edits others : List (Edit α)} {source : List α}

/-- Stretches that meet nowhere are apart once they are in order. -/
theorem apart_of_free (proper : ∀ edit ∈ edits, edit.Proper)
    (free : meetings (edits.filterMap replacement?) = ∅) :
    conflict? (replacements edits) = none ∧
      (replacements edits).Pairwise fun first second => first.stop ≤ second.start := by
  have perm := replacements_perm edits
  have ordered := replacements_ordered edits
  cases found : conflict? (replacements edits) with
  | none => exact ⟨rfl, apart_of_conflict?_none ordered found⟩
  | some conflict =>
      have least := isLeast_of_conflict? ordered (replacements_forward proper) found
      rw [meetings_perm perm, free] at least
      exact absurd least.1 (Set.notMem_empty _)

/-- Edits that are not in conflict are made place by place. -/
theorem apply_eq_placewise (proper : ∀ edit ∈ edits, edit.Proper)
    (inside : ∀ stretch ∈ edits.filterMap replacement?, stretch.stop ≤ source.length)
    (free : meetings (edits.filterMap replacement?) = ∅) :
    apply edits source = .ok (placewise edits source) := by
  have perm := replacements_perm edits
  obtain ⟨none_found, apart⟩ := apart_of_free proper free
  have forward := replacements_forward proper
  have upper : ∀ stretch ∈ replacements edits, stretch.stop ≤ source.length :=
    fun stretch member => inside stretch (perm.mem_iff.mp member)
  have lower : ∀ stretch ∈ replacements edits, 0 ≤ stretch.start :=
    fun stretch _ => Nat.zero_le stretch.start
  have made := @applyFrom_eq _ edits _ _ _ lower forward upper apart (Nat.zero_le source.length)
  rw [apply, none_found, placewise, List.range_eq_range']
  refine congrArg Except.ok (made.trans ?_)
  exact List.flatMap_congr fun place _ => (writtenAt_perm perm.symm forward apart).symm

/-- Edits in another order make the same changes or are in the same conflict, if they insert the
same on each side of each place. -/
theorem apply_perm (proper : ∀ edit ∈ edits, edit.Proper)
    (inside : ∀ stretch ∈ edits.filterMap replacement?, stretch.stop ≤ source.length)
    (perm : others.Perm edits)
    (lefts : ∀ place, others.flatMap (leftAt place) = edits.flatMap (leftAt place))
    (rights : ∀ place, others.flatMap (rightAt place) = edits.flatMap (rightAt place)) :
    apply others source = apply edits source := by
  have stretches := perm.filterMap replacement?
  have others_proper : ∀ edit ∈ others, edit.Proper :=
    fun edit member => proper edit (perm.mem_iff.mp member)
  have others_inside : ∀ stretch ∈ others.filterMap replacement?, stretch.stop ≤ source.length :=
    fun stretch member => inside stretch (stretches.mem_iff.mp member)
  have meet := meetings_perm stretches
  cases found : conflict? (replacements edits) with
  | some conflict =>
      have failed : apply edits source = .error ⟨conflict.offset⟩ := by rw [apply, found]
      have least := (apply_eq_error_iff source conflict.offset proper).mp failed
      rw [failed, apply_eq_error_iff source conflict.offset others_proper, meet]
      exact least
  | none =>
      have sorted := replacements_perm edits
      have apart := apart_of_conflict?_none (replacements_ordered edits) found
      have forward := replacements_forward proper
      have free : meetings (edits.filterMap replacement?) = ∅ := by
        rw [← meetings_perm sorted, meetings_of_apart apart]
      rw [apply_eq_placewise proper inside free,
        apply_eq_placewise others_proper others_inside (meet.trans free), placewise, placewise]
      refine congrArg Except.ok (List.flatMap_congr fun place _ => ?_)
      have inserted : insertedAt others place = insertedAt edits place := by
        rw [insertedAt, insertedAt, lefts, rights]
      calc
        writtenAt others (others.filterMap replacement?) source place =
            writtenAt edits (others.filterMap replacement?) source place := by
          rw [writtenAt, writtenAt, inserted]
        _ = writtenAt edits (replacements edits) source place :=
          writtenAt_perm (stretches.trans sorted.symm) forward apart
        _ = writtenAt edits (edits.filterMap replacement?) source place :=
          (writtenAt_perm sorted.symm forward apart).symm

end Apply

end Edit

end IslandSlots
