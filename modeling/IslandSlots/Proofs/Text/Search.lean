import IslandSlots.Text.Search
import Mathlib.Data.List.Induction

/-!
# The first place of a mark

Searching a sequence for a mark finds the first place where it stands and no other one: what is
before that place goes up to the mark, and the mark stands nowhere sooner, not even where it would
run into itself.
-/

namespace IslandSlots.Text

variable {α : Type}

/-- A run goes up to a mark that stands at the front of what is behind it, and nowhere sooner. -/
structure GoesUpTo (mark run behind : List α) : Prop where
  /-- The mark stands behind the run. -/
  stands : mark <+: behind
  /-- It stands nowhere sooner. -/
  first : ∀ front back, run ++ behind = front ++ back → mark <+: back → run.length ≤ front.length

namespace GoesUpTo

variable {mark run behind : List α}

theorem nil (stands : mark <+: behind) : GoesUpTo mark [] behind :=
  ⟨stands, fun front _ _ _ => Nat.zero_le front.length⟩

theorem not_prefix {c : α} (upto : GoesUpTo mark (c :: run) behind) :
    ¬mark <+: c :: (run ++ behind) := fun here =>
  absurd (upto.first [] _ rfl here) (Nat.not_succ_le_zero _)

theorem tail {c : α} (upto : GoesUpTo mark (c :: run) behind) : GoesUpTo mark run behind where
  stands := upto.stands
  first := by
    intro front back split here
    have sooner := upto.first (c :: front) back (by simp [split]) here
    simpa using sooner

theorem cons {c : α} (upto : GoesUpTo mark run behind) (other : ¬mark <+: c :: (run ++ behind)) :
    GoesUpTo mark (c :: run) behind where
  stands := upto.stands
  first := by
    intro front back split here
    cases front with
    | nil =>
        rw [List.nil_append] at split
        rw [← split] at here
        exact absurd here other
    | cons d front =>
        obtain ⟨-, split⟩ := List.cons.inj split
        simpa using upto.first front back split here

/-- A mark that stands behind a run and begins nowhere in it. -/
theorem of_nowhere (filled : mark ≠ []) (nowhere : ¬mark <:+: run ++ mark.dropLast)
    (after : List α) : GoesUpTo mark run (mark ++ after) where
  stands := List.prefix_append mark after
  first := by
    intro front back split here
    by_contra sooner
    obtain ⟨rest, rfl⟩ := here
    have positive := List.length_pos_iff.mpr filled
    have found : front ++ mark <+: run ++ (mark ++ after) := ⟨rest, by simp [split]⟩
    have around : run ++ mark.dropLast <+: run ++ (mark ++ after) :=
      List.prefix_append_right_inj run |>.mpr ((List.dropLast_prefix mark).trans
        (List.prefix_append mark after))
    have inside : front ++ mark <+: run ++ mark.dropLast :=
      List.prefix_of_prefix_length_le found around (by
        simp only [List.length_append, List.length_dropLast]
        omega)
    exact nowhere ((List.suffix_append front mark).isInfix.trans inside.isInfix)

/-- A mark that a run goes up to begins nowhere in the run. -/
theorem nowhere {back : List α} (filled : mark ≠ [])
    (upto : GoesUpTo mark run (mark ++ back)) :
    ¬mark <:+: run ++ mark.dropLast := by
  rintro ⟨before, after, split⟩
  have whole : run ++ (mark ++ back) =
      before ++ (mark ++ (after ++ (mark.getLast filled :: back))) := by
    have last := List.dropLast_concat_getLast filled
    calc
      run ++ (mark ++ back) = run ++ mark.dropLast ++ (mark.getLast filled :: back) := by
        conv_lhs => rw [← last]
        simp only [List.append_assoc, List.singleton_append]
      _ = _ := by
        rw [← split]
        simp only [List.append_assoc]
  have later := upto.first before _ whole (List.prefix_append mark _)
  have lengths := congrArg List.length split
  have positive := List.length_pos_iff.mpr filled
  simp only [List.length_append, List.length_dropLast] at lengths
  omega

end GoesUpTo

section Infixes

variable {mark run front back : List α}

/-- A mark that does not end in what is put behind a run stands in it only if it did before. -/
theorem isInfix_of_append_right (filled : mark ≠ []) (other : ∀ c ∈ back, mark.getLast? ≠ some c)
    (found : mark <:+: run ++ back) : mark <:+: run := by
  induction back using List.reverseRecOn with
  | nil => rwa [List.append_nil] at found
  | append_singleton back c induction =>
      rw [← List.append_assoc, List.infix_concat_iff] at found
      rcases found with ends | inside
      · rcases List.suffix_concat_iff.mp ends with empty | ⟨before, mark_eq, -⟩
        · exact absurd empty filled
        · exact absurd (by simp [mark_eq]) (other c (by simp))
      · exact induction (fun c member => other c (by simp [member])) inside

/-- A mark that does not begin in what is put before a run stands in it only if it did before. -/
theorem isInfix_of_append_left (filled : mark ≠ []) (other : ∀ c ∈ front, mark.head? ≠ some c)
    (found : mark <:+: front ++ run) : mark <:+: run := by
  induction front with
  | nil => exact found
  | cons c front induction =>
      rw [List.cons_append, List.infix_cons_iff] at found
      rcases found with begins | inside
      · rcases List.prefix_cons_iff.mp begins with empty | ⟨behind, mark_eq, -⟩
        · exact absurd empty filled
        · exact absurd (by simp [mark_eq]) (other c (by simp))
      · exact induction (fun c member => other c (by simp [member])) inside

/-- A mark stands on one side of an element that is not part of it. -/
theorem isInfix_append_cons_iff {c : α} (other : c ∉ mark) :
    mark <:+: front ++ c :: back ↔ mark <:+: front ∨ mark <:+: back := by
  constructor
  · intro found
    rcases List.infix_append_iff.mp found with before | behind | ⟨left, right, rfl, ends, begins⟩
    · exact .inl before
    · rcases List.infix_cons_iff.mp behind with begins | inside
      · rcases List.prefix_cons_iff.mp begins with rfl | ⟨rest, rfl, -⟩
        · exact .inl List.nil_infix
        · exact absurd List.mem_cons_self other
      · exact .inr inside
    · rcases List.prefix_cons_iff.mp begins with rfl | ⟨rest, rfl, -⟩
      · exact .inl (by simpa using ends.isInfix)
      · exact absurd (List.mem_append_right left List.mem_cons_self) other
  · rintro (before | behind)
    · exact before.trans (List.prefix_append front _).isInfix
    · exact behind.trans ((List.suffix_cons c back).trans (List.suffix_append front _)).isInfix

end Infixes

variable [BEq α] [LawfulBEq α]

/-- What is left after a mark is what the mark is put before. -/
theorem after?_eq_some_iff {mark text rest : List α} :
    after? mark text = some rest ↔ text = mark ++ rest := by
  refine ⟨eq_of_after?, ?_⟩
  rintro rfl
  rw [after?, if_pos (List.isPrefixOf_iff_prefix.mpr (List.prefix_append mark rest)),
    List.drop_left]

/-- A search finds what is before and after the first place of a mark. -/
theorem splitFirst?_eq_some_iff {mark text before after : List α} :
    splitFirst? mark text = some (before, after) ↔
      text = before ++ (mark ++ after) ∧ GoesUpTo mark before (mark ++ after) := by
  constructor
  · intro found
    have text_eq := eq_of_splitFirst? found
    rw [List.append_assoc] at text_eq
    refine ⟨text_eq, ?_⟩
    induction text generalizing before with
    | nil =>
        obtain ⟨rfl, -⟩ := List.append_eq_nil_iff.mp text_eq.symm
        exact .nil (List.prefix_append mark after)
    | cons c rest induction =>
        rw [splitFirst?] at found
        split at found
        · obtain ⟨rfl, -⟩ := Prod.mk.inj (Option.some.inj found)
          exact .nil (List.prefix_append mark after)
        · rename_i other
          obtain ⟨⟨front, back⟩, inner, same⟩ := Option.map_eq_some_iff.mp found
          obtain ⟨rfl, rfl⟩ := Prod.mk.inj same
          obtain ⟨-, rest_eq⟩ := List.cons.inj text_eq
          refine (induction inner rest_eq).cons fun here => other ?_
          rw [rest_eq]
          exact List.isPrefixOf_iff_prefix.mpr here
  · rintro ⟨rfl, upto⟩
    induction before with
    | nil =>
        cases text_eq : mark ++ after with
        | nil =>
            obtain ⟨rfl, rfl⟩ := List.append_eq_nil_iff.mp text_eq
            rfl
        | cons c rest =>
            have here : mark.isPrefixOf (c :: rest) :=
              List.isPrefixOf_iff_prefix.mpr (text_eq ▸ List.prefix_append mark after)
            rw [List.nil_append, splitFirst?, if_pos here, ← text_eq, List.drop_left]
    | cons c before induction =>
        have other : ¬mark.isPrefixOf (c :: (before ++ (mark ++ after))) := fun here =>
          upto.not_prefix (List.isPrefixOf_iff_prefix.mp here)
        rw [List.cons_append, splitFirst?, if_neg other, induction upto.tail]
        rfl

/-- A search for a mark says whether it stands anywhere. -/
theorem occursIn_iff {mark text : List α} : occursIn mark text ↔ mark <:+: text := by
  constructor
  · intro found
    obtain ⟨⟨before, after⟩, split⟩ := Option.isSome_iff_exists.mp found
    exact ⟨before, after, (eq_of_splitFirst? split).symm⟩
  · intro stands
    induction text with
    | nil =>
        obtain rfl := List.infix_nil.mp stands
        rfl
    | cons c text induction =>
        rw [occursIn, splitFirst?]
        split
        · rfl
        · rename_i other
          rcases List.infix_cons_iff.mp stands with begins | inside
          · exact absurd (List.isPrefixOf_iff_prefix.mpr begins) other
          · rw [Option.isSome_map]
            exact induction inside

end IslandSlots.Text
