/-!
# Finding text in text

The first place where one sequence occurs in another, and the two parts around it.
-/

namespace IslandSlots.Text

variable {α : Type} [BEq α]

/-- The parts before and after the first occurrence of `mark`. -/
def splitFirst? (mark : List α) : List α → Option (List α × List α)
  | [] => if mark.isEmpty then some ([], []) else none
  | c :: rest =>
    if mark.isPrefixOf (c :: rest) then some ([], (c :: rest).drop mark.length)
    else (splitFirst? mark rest).map fun (before, after) => (c :: before, after)

/-- Whether `mark` occurs in a sequence. -/
def occursIn (mark text : List α) : Bool :=
  (splitFirst? mark text).isSome

/-- What is left of a sequence after an initial `mark`. -/
def after? (mark text : List α) : Option (List α) :=
  if mark.isPrefixOf text then some (text.drop mark.length) else none

/-- The parts of a string before and after the first occurrence of `mark`. -/
def splitString? (mark text : String) : Option (String × String) :=
  (splitFirst? mark.toList text.toList).map fun (before, after) =>
    (String.ofList before, String.ofList after)

variable [LawfulBEq α]

/-- The two parts and the mark between them make up the sequence. -/
theorem eq_of_splitFirst? {mark text before after : List α}
    (found : splitFirst? mark text = some (before, after)) : text = before ++ mark ++ after := by
  induction text generalizing before with
  | nil =>
    simp only [splitFirst?] at found
    split at found
    · simp_all
    · simp at found
  | cons c rest induction =>
    simp only [splitFirst?] at found
    split at found
    · rename_i starts
      simp only [Option.some.injEq, Prod.mk.injEq] at found
      obtain ⟨rfl, rfl⟩ := found
      obtain ⟨tail, tail_eq⟩ := List.isPrefixOf_iff_prefix.1 starts
      rw [← tail_eq]
      simp
    · simp only [Option.map_eq_some_iff, Prod.mk.injEq, Prod.exists] at found
      obtain ⟨_, _, inner, rfl, rfl⟩ := found
      simp [induction inner]

/-- What follows the mark ends the sequence. -/
theorem suffix_of_splitFirst? {mark text before after : List α}
    (found : splitFirst? mark text = some (before, after)) : after <:+ text :=
  ⟨before ++ mark, (eq_of_splitFirst? found).symm⟩

/-- The mark and what is left after it make up the sequence. -/
theorem eq_of_after? {mark text rest : List α} (found : after? mark text = some rest) :
    text = mark ++ rest := by
  simp only [after?] at found
  split at found
  · rename_i starts
    obtain ⟨tail, rfl⟩ := List.isPrefixOf_iff_prefix.1 starts
    simp_all
  · simp at found

/-- What is left after the mark ends the sequence. -/
theorem suffix_of_after? {mark text rest : List α} (found : after? mark text = some rest) :
    rest <:+ text :=
  ⟨mark, (eq_of_after? found).symm⟩

end IslandSlots.Text
