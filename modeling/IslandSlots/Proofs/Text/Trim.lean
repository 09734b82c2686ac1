import IslandSlots.Text.Blank
import Mathlib.Data.List.TakeWhile

/-!
# Trimmed text

A trimmed text begins and ends with characters that are not blank. So what is put behind it does not
change its front, and blanks at its two ends are taken off again.
-/

namespace IslandSlots.Text

/-! ## Texts without blanks at their ends -/

theorem length_trim_le (text : List Char) : (trim text).length ≤ text.length := by
  have front := (List.dropWhile_sublist isBlank (l := text)).length_le
  have back := (List.dropWhile_sublist isBlank (l := (trimStart text).reverse)).length_le
  simp only [trim, trimEnd, trimStart, List.length_reverse] at front back ⊢
  omega

/-- A text that is trimmed begins with no blank. -/
theorem trimStart_of_trimmed {text : List Char} (trimmed : trim text = text) :
    trimStart text = text := by
  have shorter : text.length ≤ (trimStart text).length := by
    have back := (List.dropWhile_sublist isBlank (l := (trimStart text).reverse)).length_le
    have whole := congrArg List.length trimmed
    simp only [trim, trimEnd, List.length_reverse] at back whole
    omega
  exact (List.dropWhile_suffix isBlank).eq_of_length_le shorter

/-- What is put behind a text that begins with no blank does not change its beginning. -/
theorem trimStart_append_of_filled {front : List Char} (solid : trimStart front = front)
    (filled : front ≠ []) (back : List Char) : trimStart (front ++ back) = front ++ back := by
  rw [trimStart, List.dropWhile_append, ← trimStart, solid,
    if_neg (by simpa using filled)]

/-- Trimming goes up to the last character that is not blank. -/
theorem trimEnd_append_cons {c : Char} (solid : isBlank c = false) (front back : List Char) :
    trimEnd (front ++ c :: back) = front ++ c :: trimEnd back := by
  have here : (c :: front.reverse).dropWhile isBlank = c :: front.reverse :=
    List.dropWhile_cons_of_neg (by simp [solid])
  have reversed : (front ++ c :: back).reverse = back.reverse ++ c :: front.reverse := by simp
  rw [trimEnd, trimEnd, reversed, List.dropWhile_append, here]
  split
  · rename_i empty
    rw [List.isEmpty_iff.mp empty]
    simp
  · simp

/-- A text that is trimmed ends with a character that is not blank. -/
theorem exists_concat_of_trimmed {text : List Char} (trimmed : trim text = text)
    (filled : text ≠ []) : ∃ front c, text = front ++ [c] ∧ isBlank c = false := by
  obtain ⟨front, c, text_eq⟩ := (List.eq_nil_or_concat text).resolve_left filled
  rw [List.concat_eq_append] at text_eq
  subst text_eq
  refine ⟨front, c, rfl, Bool.eq_false_iff.mpr fun blank => ?_⟩
  rw [trim, trimStart_of_trimmed trimmed, trimEnd, List.reverse_append, List.reverse_singleton,
    List.singleton_append, List.dropWhile_cons_of_pos blank] at trimmed
  have lengths := congrArg List.length trimmed
  have shorter := (List.dropWhile_sublist isBlank (l := front.reverse)).length_le
  simp only [List.length_reverse, List.length_append, List.length_singleton] at lengths shorter
  omega

/-- A text is trimmed to nothing only if all of it is blank. -/
theorem trim_ne_nil {text : List Char} {c : Char} (member : c ∈ text) (solid : isBlank c = false) :
    trim text ≠ [] := by
  intro nothing
  have front_blank : trimStart text = [] := by
    have reversed := List.reverse_eq_nil_iff.mp nothing
    have blanks := List.dropWhile_eq_nil_iff.mp reversed
    cases starts : trimStart text with
    | nil => rfl
    | cons d rest =>
        have not_blank := List.head_dropWhile_not isBlank (l := text)
          (by rw [← trimStart, starts]; exact List.cons_ne_nil d rest)
        have blank := blanks d (by simp [starts])
        rw [← Bool.not_eq_true] at not_blank
        exact absurd (by simpa only [← trimStart.eq_1, starts, List.head_cons] using blank) not_blank
  have blank := List.dropWhile_eq_nil_iff.mp front_blank c member
  rw [solid] at blank
  cases blank

/-! ## Blanks around a text -/

section Blanks

variable {gap text : List Char}

theorem trimStart_append (blank : gap.all isBlank) : trimStart (gap ++ text) = trimStart text :=
  List.dropWhile_append_of_pos (List.all_eq_true.mp blank)

theorem trimEnd_append (blank : gap.all isBlank) : trimEnd (text ++ gap) = trimEnd text := by
  rw [trimEnd, List.reverse_append, List.dropWhile_append_of_pos]
  · rfl
  · exact fun c member => List.all_eq_true.mp blank c (List.mem_reverse.mp member)

/-- Blanks at the two ends of a text that has none there are taken off again. -/
theorem trim_surrounded (blank : gap.all isBlank) (trimmed : trim text = text) :
    trim (gap ++ text ++ gap) = text := by
  have front := trimStart_of_trimmed trimmed
  by_cases empty : text = []
  · subst empty
    have rest : trimStart gap = [] := List.dropWhile_eq_nil_iff.mpr (List.all_eq_true.mp blank)
    rw [List.append_nil, trim, trimStart_append blank, rest]
    rfl
  · rw [trim, front] at trimmed
    rw [trim, List.append_assoc, trimStart_append blank, trimStart_append_of_filled front empty,
      trimEnd_append blank, trimmed]

end Blanks

end IslandSlots.Text
