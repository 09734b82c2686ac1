import IslandSlots.Loop.Binding
import IslandSlots.Proofs.Text.Search
import IslandSlots.Proofs.Text.Trim

/-!
# The word between the sides of a loop

A loop is said with the word `in` or `of` between its two sides. It is read back as long as the
text is parted at that word: a loop said with `in` at the first one, and a loop said with `of` only
if there is no `in` anywhere, since that word is looked for first and in the whole text.
-/

namespace IslandSlots

namespace Binding

open Text

/-- The text that says a loop with a word between its sides. -/
def said (loop : Binding) (word : String) : String :=
  loop.item ++ " " ++ word ++ " " ++ loop.collection

/-- A word with the blanks around it. -/
def divider (word : String) : List Char := ' ' :: (word.toList ++ [' '])

theorem divider_ne_nil (word : String) : divider word ≠ [] := List.cons_ne_nil _ _

theorem dropLast_divider (word : String) : (divider word).dropLast = ' ' :: word.toList :=
  @List.dropLast_concat _ (' ' :: word.toList) ' '

/-- The text of a loop said with `of` up to a place in the collection. -/
def beginning (loop : Binding) (front : List Char) : List Char :=
  loop.item.toList ++ [' '] ++ 'o' :: 'f' :: front

theorem toList_beginning (loop : Binding) (front : List Char) :
    (loop.item ++ " of" ++ String.ofList front).toList = loop.beginning front := by
  simp only [String.toList_append, String.toList_ofList, beginning, List.append_assoc]
  rfl

/-- A text ends in a word with a blank before it. -/
def EndsIn (text word : String) : Prop := ' ' :: word.toList <:+ text.toList

instance (text word : String) : Decidable (EndsIn text word) :=
  inferInstanceAs (Decidable (_ <:+ _))

/-- The sides of a loop are not empty and have no blanks around them, and there is none of the two
words in the first one. -/
structure IsSayable (loop : Binding) : Prop where
  /-- Something is bound. -/
  item_filled : loop.item ≠ ""
  /-- There are no blanks around it. -/
  item_trimmed : trimmed loop.item = loop.item
  /-- The one word is not in it. -/
  no_in : ¬divider "in" <:+: loop.item.toList
  /-- Nor is the other. -/
  no_of : ¬divider "of" <:+: loop.item.toList
  /-- There is something to loop over. -/
  collection_filled : loop.collection ≠ ""
  /-- There are no blanks around it. -/
  collection_trimmed : trimmed loop.collection = loop.collection

/-- The loop with the given sides once they are trimmed, if none of them is blank. -/
def ofSides? (before after : List Char) : Option Binding :=
  if (trim before).isEmpty || (trim after).isEmpty then none
  else some ⟨String.ofList (trim before), String.ofList (trim after)⟩

section Reading

variable {before after : List Char}

theorem parse?_eq (text : List Char) :
    parse? (String.ofList text) =
      ((splitFirst? (divider "in") text).or (splitFirst? (divider "of") text)).bind
        fun sides => ofSides? sides.1 sides.2 := by
  have empty (side : List Char) : (trimmed (String.ofList side)).isEmpty = (trim side).isEmpty := by
    rw [trimmed, String.toList_ofList, Bool.eq_iff_iff, String.isEmpty_iff, List.isEmpty_iff,
      ← String.ofList_nil, String.ofList_inj]
  have read (sides : List Char × List Char) :
      (if (trimmed (String.ofList sides.1)).isEmpty || (trimmed (String.ofList sides.2)).isEmpty
        then none else some (Binding.mk (trimmed (String.ofList sides.1))
          (trimmed (String.ofList sides.2)))) = ofSides? sides.1 sides.2 := by
    rw [empty, empty, ofSides?, trimmed, trimmed, String.toList_ofList, String.toList_ofList]
  have in_eq : " in ".toList = divider "in" := by decide
  have of_eq : " of ".toList = divider "of" := by decide
  simp only [parse?, splitString?, String.toList_ofList, in_eq, of_eq, ← Option.map_or]
  cases (splitFirst? (divider "in") text).or (splitFirst? (divider "of") text) with
  | none => rfl
  | some sides =>
      simp only [Option.map_some, Option.bind_eq_bind, Option.bind_some]
      exact read sides

/-- A text is parted at the first `in` that stands in it. -/
theorem parse?_in (upto : GoesUpTo (divider "in") before (divider "in" ++ after)) :
    parse? (String.ofList (before ++ (divider "in" ++ after))) = ofSides? before after := by
  rw [parse?_eq, splitFirst?_eq_some_iff.mpr ⟨rfl, upto⟩]
  rfl

/-- A text in which no `in` stands is parted at the first `of`. -/
theorem parse?_of (nowhere : ¬divider "in" <:+: before ++ (divider "of" ++ after))
    (upto : GoesUpTo (divider "of") before (divider "of" ++ after)) :
    parse? (String.ofList (before ++ (divider "of" ++ after))) = ofSides? before after := by
  have none_found : splitFirst? (divider "in") (before ++ (divider "of" ++ after)) = none := by
    rw [← Option.not_isSome_iff_eq_none]
    exact fun found => nowhere (occursIn_iff.mp found)
  rw [parse?_eq, none_found, splitFirst?_eq_some_iff.mpr ⟨rfl, upto⟩]
  rfl

end Reading

section Sides

variable {item collection : List Char} {word : String}

/-- A word stands before a blank that is put behind a text only where the text ends in it. -/
theorem divider_infix_blank_iff (plain : ¬divider word <:+: item) :
    divider word <:+: item ++ [' '] ↔ ' ' :: word.toList <:+ item := by
  rw [List.infix_concat_iff]
  have divided : divider word = (' ' :: word.toList) ++ [' '] := rfl
  constructor
  · rintro (ends | inside)
    · rcases List.suffix_concat_iff.mp ends with empty | ⟨front, front_eq, suffix⟩
      · cases empty
      · rw [divided] at front_eq
        rwa [(List.append_inj' front_eq rfl).1]
    · exact absurd inside plain
  · intro ends
    exact .inl (List.suffix_concat_iff.mpr (.inr ⟨_, divided, ends⟩))

/-- The word `in` stands in a loop that is said with `of` only where the item ends or in the
collection. -/
theorem divider_in_infix_iff (plain : ¬divider "in" <:+: item) :
    divider "in" <:+: item ++ (divider "of" ++ collection) ↔
      ' ' :: "in".toList <:+ item ∨ divider "in" <:+: ' ' :: collection := by
  have split : item ++ (divider "of" ++ collection) =
      item ++ [' '] ++ 'o' :: 'f' :: ' ' :: collection := by
    simp [divider]
  rw [split, isInfix_append_cons_iff (by decide), divider_infix_blank_iff plain]
  have behind : divider "in" <:+: [] ++ 'f' :: ' ' :: collection ↔
      divider "in" <:+: ' ' :: collection := by
    rw [isInfix_append_cons_iff (by decide), List.infix_nil]
    exact or_iff_right (List.cons_ne_nil _ _)
  exact or_congr_right behind

/-- A text is parted at a word that stands behind an item, if the item does not end in it. -/
theorem goesUpTo_divider (plain : ¬divider word <:+: item) (ends : ¬(' ' :: word.toList) <:+ item)
    (solid : ' ' ∉ word.toList) (after : List Char) :
    GoesUpTo (divider word) item (divider word ++ after) := by
  refine .of_nowhere (divider_ne_nil word) (fun found => ends ?_) after
  rw [dropLast_divider, ← List.singleton_append, ← List.append_assoc] at found
  refine (divider_infix_blank_iff plain).mp (isInfix_of_append_right (divider_ne_nil word) ?_ found)
  intro c member last
  rw [divider, ← List.cons_append, List.getLast?_concat] at last
  exact solid ((Option.some.inj last).symm ▸ member)

theorem eq_of_ofSides? {before after : List Char} {loop : Binding}
    (found : ofSides? before after = some loop) : trim before = loop.item.toList := by
  rw [ofSides?] at found
  split at found
  · cases found
  · cases found
    rw [String.toList_ofList]

end Sides

theorem toList_said (loop : Binding) (word : String) :
    (loop.said word).toList = loop.item.toList ++ (divider word ++ loop.collection.toList) := by
  simp only [said, String.toList_append, divider, List.append_assoc, List.cons_append]
  rfl

theorem said_eq (loop : Binding) (word : String) :
    loop.said word =
      String.ofList (loop.item.toList ++ (divider word ++ loop.collection.toList)) := by
  rw [← toList_said, String.ofList_toList]

namespace IsSayable

variable {loop : Binding}

theorem trim_item (sayable : loop.IsSayable) : trim loop.item.toList = loop.item.toList := by
  rw [← String.toList_ofList (l := trim loop.item.toList)]
  exact congrArg String.toList sayable.item_trimmed

theorem trim_collection (sayable : loop.IsSayable) :
    trim loop.collection.toList = loop.collection.toList := by
  rw [← String.toList_ofList (l := trim loop.collection.toList)]
  exact congrArg String.toList sayable.collection_trimmed

theorem item_ne_nil (sayable : loop.IsSayable) : loop.item.toList ≠ [] := fun empty =>
  sayable.item_filled (String.toList_eq_nil_iff.mp empty)

theorem collection_ne_nil (sayable : loop.IsSayable) : loop.collection.toList ≠ [] := fun empty =>
  sayable.collection_filled (String.toList_eq_nil_iff.mp empty)

/-- The sides of the loop make it up. -/
theorem ofSides?_eq (sayable : loop.IsSayable) :
    ofSides? loop.item.toList loop.collection.toList = some loop := by
  rw [ofSides?, sayable.trim_item, sayable.trim_collection, String.ofList_toList,
    String.ofList_toList, if_neg]
  simpa using ⟨sayable.item_filled, sayable.collection_filled⟩

/-- A loop whose item ends in a word can be parted there, and then its item is cut off. -/
theorem cut_item {front : List Char} {last : String}
    (ends : front ++ ' ' :: last.toList = loop.item.toList)
    (plain : ¬divider last <:+: loop.item.toList) (word : String) :
    ∃ after, (loop.said word).toList = front ++ (divider last ++ after) ∧
      GoesUpTo (divider last) front (divider last ++ after) ∧ ofSides? front after ≠ some loop := by
  refine ⟨word.toList ++ ' ' :: loop.collection.toList, ?_, ?_, fun whole => ?_⟩
  · rw [toList_said, ← ends]
    simp [divider]
  · exact .of_nowhere (divider_ne_nil last) (by rwa [dropLast_divider, ends]) _
  · have lengths := congrArg List.length ((eq_of_ofSides? whole).trans ends.symm)
    have shorter := length_trim_le front
    simp only [List.length_append, List.length_cons] at lengths
    omega

theorem parse?_in_iff (sayable : loop.IsSayable) :
    parse? (loop.said "in") = some loop ↔ ¬EndsIn loop.item "in" := by
  constructor
  · rintro read ⟨front, ends⟩
    obtain ⟨after, said_eq, upto, cut⟩ := cut_item ends sayable.no_in "in"
    rw [← String.ofList_toList (s := loop.said "in"), said_eq, parse?_in upto] at read
    exact cut read
  · intro apart
    rw [said_eq, parse?_in (goesUpTo_divider sayable.no_in apart (by decide) _),
      sayable.ofSides?_eq]

/-- Behind a word that stands in the collection not all is blank. -/
theorem trim_behind_ne_nil (sayable : loop.IsSayable) {word : String} {front back : List Char}
    (split : ' ' :: loop.collection.toList = front ++ (divider word ++ back)) : trim back ≠ [] := by
  obtain ⟨most, c, collection_end, solid⟩ :=
    exists_concat_of_trimmed sayable.trim_collection sayable.collection_ne_nil
  refine trim_ne_nil ?_ solid
  rcases List.eq_nil_or_concat back with rfl | ⟨rest, last, rfl⟩
  · -- The collection would end in the blank behind the word.
    have ending : (' ' :: most) ++ [c] = (front ++ ' ' :: word.toList) ++ [' '] := by
      rw [List.cons_append, ← collection_end, split]
      simp [divider]
    obtain rfl := List.singleton_inj.mp (List.append_inj' ending rfl).2
    cases solid
  · have ending : (' ' :: most) ++ [c] = (front ++ (divider word ++ rest)) ++ [last] := by
      rw [List.cons_append, ← collection_end, split, List.concat_eq_append]
      simp
    obtain rfl := List.singleton_inj.mp (List.append_inj' ending rfl).2
    simp

/-- Up to the first `in` in the collection there is none, unless the item ends in one. -/
theorem goesUpTo_beginning (sayable : loop.IsSayable) (apart : ¬EndsIn loop.item "in")
    {front back : List Char} (upto : GoesUpTo (divider "in") front (divider "in" ++ back)) :
    GoesUpTo (divider "in") (loop.beginning front) (divider "in" ++ back) := by
  have split : loop.beginning front ++ (divider "in").dropLast =
      loop.item.toList ++ [' '] ++ 'o' :: ([] ++ 'f' :: (front ++ (divider "in").dropLast)) := by
    simp [beginning]
  refine .of_nowhere (divider_ne_nil "in") ?_ back
  rw [split, isInfix_append_cons_iff (c := 'o') (by decide),
    isInfix_append_cons_iff (c := 'f') (by decide),
    divider_infix_blank_iff sayable.no_in, List.infix_nil]
  rintro (ends | empty | inside)
  · exact apart ends
  · exact divider_ne_nil "in" empty
  · exact upto.nowhere (divider_ne_nil "in") inside

/-- If the word `in` stands in the collection, a loop that is said with `of` is parted there. -/
theorem parse?_of_inside (sayable : loop.IsSayable) (apart : ¬EndsIn loop.item "in")
    {front back : List Char}
    (found : splitFirst? (divider "in") (' ' :: loop.collection.toList) = some (front, back)) :
    parse? (loop.said "of") =
      some ⟨trimmed (loop.item ++ " of" ++ String.ofList front), trimmed (String.ofList back)⟩ := by
  obtain ⟨collection_eq, upto⟩ := splitFirst?_eq_some_iff.mp found
  have text_eq : (loop.said "of").toList = loop.beginning front ++ (divider "in" ++ back) := by
    have split : (loop.said "of").toList =
        loop.beginning [] ++ (' ' :: loop.collection.toList) := by
      rw [toList_said]
      simp [divider, beginning]
    rw [split, collection_eq]
    simp [beginning]
  have before_solid : trim (loop.beginning front) ≠ [] :=
    trim_ne_nil (List.mem_append_right _ (List.mem_cons_of_mem _ List.mem_cons_self)) rfl
  have back_solid := sayable.trim_behind_ne_nil collection_eq
  rw [← String.ofList_toList (s := loop.said "of"), text_eq,
    parse?_in (sayable.goesUpTo_beginning apart upto), ofSides?, trimmed, toList_beginning, trimmed,
    String.toList_ofList, if_neg (by simpa using ⟨before_solid, back_solid⟩)]

/-- More than the item stands before a place in the collection. -/
theorem trimmed_beginning_ne (sayable : loop.IsSayable) (front : List Char) :
    trimmed (loop.item ++ " of" ++ String.ofList front) ≠ loop.item := by
  intro same
  have lengths := congrArg (fun text => text.toList.length) same
  have item_solid := trimStart_of_trimmed sayable.trim_item
  rw [trimmed, String.toList_ofList, toList_beginning, beginning, List.append_assoc, trim,
    trimStart_append_of_filled item_solid sayable.item_ne_nil, ← List.append_assoc,
    trimEnd_append_cons rfl] at lengths
  simp only [List.length_append, List.length_cons] at lengths
  omega

theorem parse?_of_iff (sayable : loop.IsSayable) :
    parse? (loop.said "of") = some loop ↔ (¬EndsIn loop.item "in" ∧ ¬EndsIn loop.item "of") ∧
      ¬divider "in" <:+: ' ' :: loop.collection.toList := by
  constructor
  · intro read
    have apart_in : ¬EndsIn loop.item "in" := by
      rintro ⟨front, ends⟩
      obtain ⟨after, said_eq, upto, cut⟩ := cut_item ends sayable.no_in "of"
      rw [← String.ofList_toList (s := loop.said "of"), said_eq, parse?_in upto] at read
      exact cut read
    have nowhere : ¬divider "in" <:+: ' ' :: loop.collection.toList := by
      intro inside
      obtain ⟨⟨front, back⟩, found⟩ := Option.isSome_iff_exists.mp (occursIn_iff.mpr inside)
      rw [sayable.parse?_of_inside apart_in found] at read
      exact sayable.trimmed_beginning_ne front (congrArg Binding.item (Option.some.inj read))
    refine ⟨⟨apart_in, ?_⟩, nowhere⟩
    rintro ⟨front, ends⟩
    obtain ⟨after, said_eq, upto, cut⟩ := cut_item ends sayable.no_of "of"
    have plain : ¬divider "in" <:+: (loop.said "of").toList := by
      rw [toList_said, divider_in_infix_iff sayable.no_in]
      exact not_or.mpr ⟨apart_in, nowhere⟩
    rw [said_eq] at plain
    rw [← String.ofList_toList (s := loop.said "of"), said_eq, parse?_of plain upto] at read
    exact cut read
  · rintro ⟨⟨apart_in, apart_of⟩, nowhere⟩
    have plain := (divider_in_infix_iff sayable.no_in).not.mpr (not_or.mpr ⟨apart_in, nowhere⟩)
    rw [said_eq, parse?_of plain (goesUpTo_divider sayable.no_of apart_of (by decide) _),
      sayable.ofSides?_eq]

end IsSayable

/-- A loop said with a word is read back exactly if the text is parted at that word: `in` is the
first one unless the item ends in it, and `of` counts only if no `in` stands in the text. Where one
stands in the collection, the text is parted there. -/
theorem parse?_said {loop : Binding} (sayable : loop.IsSayable) :
    (parse? (loop.said "in") = some loop ↔ ¬EndsIn loop.item "in") ∧
    (parse? (loop.said "of") = some loop ↔
      (¬EndsIn loop.item "in" ∧ ¬EndsIn loop.item "of") ∧
        ¬divider "in" <:+: ' ' :: loop.collection.toList) ∧
    ∀ front back, ¬EndsIn loop.item "in" →
      splitFirst? (divider "in") (' ' :: loop.collection.toList) = some (front, back) →
        parse? (loop.said "of") =
          some ⟨trimmed (loop.item ++ " of" ++ String.ofList front), trimmed (String.ofList back)⟩ :=
  ⟨sayable.parse?_in_iff, sayable.parse?_of_iff,
    fun _ _ apart found => sayable.parse?_of_inside apart found⟩

/-- The word `of` may stand in the collection. -/
theorem parse?_said_twoWords :
    let loop : Binding := ⟨"(row, i)", "rows[x of y]"⟩
    loop.IsSayable ∧ (¬EndsIn loop.item "in" ∧ ¬EndsIn loop.item "of") ∧
      ¬divider "in" <:+: ' ' :: loop.collection.toList ∧ parse? (loop.said "of") = some loop := by
  intro loop
  have sayable : loop.IsSayable :=
    ⟨by decide +kernel, by decide +kernel, by decide +kernel, by decide +kernel, by decide +kernel,
      by decide +kernel⟩
  have apart : ¬EndsIn loop.item "in" ∧ ¬EndsIn loop.item "of" := by decide +kernel
  have nowhere : ¬divider "in" <:+: ' ' :: loop.collection.toList := by decide +kernel
  exact ⟨sayable, apart, nowhere, (parse?_said sayable).2.1.mpr ⟨apart, nowhere⟩⟩

/-- A loop that is said with `of` is parted at a word `in` in its collection. -/
theorem parse?_operatorInCollection :
    let loop : Binding := ⟨"x", "xs.filter(y => y in seen)"⟩
    loop.IsSayable ∧ loop.said "of" = "x of xs.filter(y => y in seen)" ∧
      parse? (loop.said "of") = some ⟨"x of xs.filter(y => y", "seen)"⟩ := by
  intro loop
  have sayable : loop.IsSayable :=
    ⟨by decide +kernel, by decide +kernel, by decide +kernel, by decide +kernel, by decide +kernel,
      by decide +kernel⟩
  exact ⟨sayable, by decide +kernel, by decide +kernel⟩

end Binding

end IslandSlots
