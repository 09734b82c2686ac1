import IslandSlots.Proofs.Loop.Words
import IslandSlots.Proofs.Slot.Data
import IslandSlots.Script.Module

/-!
# The item of a loop as parameters

The data of a slot in a loop has a function in it whose parameters are the item of the loop, as it
stands in front of the word `in` or `of`. They are a list of parameters if the item is one name or
stands in parentheses. A pattern or several names are items as well, but without parentheses they
are no parameters.
-/

namespace IslandSlots

namespace LoopItem

open Text SlotData

/-! ## Parameters -/

/-- The brackets in pairs. -/
def brackets : List (Char × Char) := [('(', ')'), ('[', ']'), ('\x7b', '\x7d')]

/-- The characters around quoted texts. -/
def quotes : List Char := ['\'', '"', '\x60']

/-- The brackets and the quotes. -/
def delimiters : List Char :=
  quotes ++ brackets.flatMap fun (opening, closing) => [opening, closing]

/-- Whether a character is no bracket and no quote. -/
def isPlain (c : Char) : Bool :=
  !delimiters.contains c

/-- Outside of quoted texts the brackets of a text are in pairs, one inside the other. -/
inductive Nested : List Char → Prop where
  | nil : Nested []
  | plain {c : Char} {rest : List Char} : isPlain c → Nested rest → Nested (c :: rest)
  /-- A quoted text goes up to the first quote without a backslash. -/
  | quoted {quote : Char} {body text rest : List Char} : quote ∈ quotes →
      readQuoted quote (body ++ [quote]) = some (text, []) → Nested rest →
        Nested (quote :: body ++ quote :: rest)
  | bracketed {opening closing : Char} {inside rest : List Char} :
      (opening, closing) ∈ brackets → Nested inside → Nested rest →
        Nested (opening :: inside ++ closing :: rest)

/-- A text stands in one pair of parentheses. -/
def Enclosed (text : List Char) : Prop :=
  ∃ inside, Nested inside ∧ text = '(' :: inside ++ [')']

/-- A text is the name of a variable. -/
structure IsVariable (text : List Char) : Prop where
  /-- The first character may begin an identifier. -/
  begins : text.head?.any isIdentifierStart
  /-- Each may stand in one. -/
  goesOn : ∀ c ∈ text, isIdentifierPart c
  /-- The word is not reserved. -/
  free : String.ofList text ∉ Script.reservedWords

instance (text : List Char) : Decidable (IsVariable text) :=
  decidable_of_iff (text.head?.any isIdentifierStart ∧ text.all isIdentifierPart ∧
      String.ofList text ∉ Script.reservedWords)
    ⟨fun ⟨begins, goesOn, free⟩ => ⟨begins, List.all_eq_true.mp goesOn, free⟩,
      fun named => ⟨named.begins, List.all_eq_true.mpr named.goesOn, named.free⟩⟩

/-- A text can stand as the parameters in front of an arrow. -/
def IsParameterList (text : List Char) : Prop :=
  IsVariable text ∨ Enclosed text

/-! ## Items -/

/-- A text is a pattern: a name, or a pattern for an object or an array. -/
inductive IsPattern : List Char → Prop where
  | name {text : List Char} : IsVariable text → IsPattern text
  | object {inside : List Char} : Nested inside → IsPattern ('\x7b' :: inside ++ ['\x7d'])
  | array {inside : List Char} : Nested inside → IsPattern ('[' :: inside ++ [']'])

/-- A text is one pattern, or several with commas between them. -/
inductive IsPatterns : List Char → Prop where
  | one {text : List Char} : IsPattern text → IsPatterns text
  | cons {first front back rest : List Char} : IsPattern first → (∀ c ∈ front, isBlank c) →
      (∀ c ∈ back, isBlank c) → IsPatterns rest →
        IsPatterns (first ++ (front ++ ',' :: (back ++ rest)))

/-- A text is one pattern or several in parentheses. -/
def IsParenthesized (text : List Char) : Prop :=
  ∃ front patterns back, (∀ c ∈ front, isBlank c) ∧ IsPatterns patterns ∧
    (∀ c ∈ back, isBlank c) ∧ text = '(' :: (front ++ (patterns ++ back)) ++ [')']

namespace Nested

theorem append {front back : List Char} (first : Nested front) (second : Nested back) :
    Nested (front ++ back) := by
  induction first with
  | nil => exact second
  | plain other _ induction => exact .plain other induction
  | quoted listed read _ induction =>
      rw [List.append_assoc]
      exact .quoted listed read induction
  | bracketed pair inside _ _ induction =>
      rw [List.append_assoc]
      exact .bracketed pair inside induction

theorem of_plain {text : List Char} (plain : ∀ c ∈ text, isPlain c) : Nested text := by
  induction text with
  | nil => exact .nil
  | cons c text induction =>
      obtain ⟨first, others⟩ := List.forall_mem_cons.mp plain
      exact .plain first (induction others)

end Nested

/-- What is true of no bracket and of no quote is true of plain characters only. -/
theorem isPlain_of_accepts {accepts : Char → Bool} (never : delimiters.any accepts = false)
    {c : Char} (accepted : accepts c) : isPlain c := by
  rw [isPlain, Bool.not_eq_true', List.contains_eq_mem, decide_eq_false_iff_not]
  exact fun listed => List.any_eq_false.mp never c listed accepted

theorem nested_blanks {blanks : List Char} (blank : ∀ c ∈ blanks, isBlank c) : Nested blanks :=
  .of_plain fun c member => isPlain_of_accepts (by decide) (blank c member)

theorem IsVariable.nested {text : List Char} (named : IsVariable text) : Nested text :=
  .of_plain fun c member => isPlain_of_accepts (by decide) (named.goesOn c member)

theorem IsPattern.nested {text : List Char} (pattern : IsPattern text) : Nested text := by
  cases pattern with
  | name named => exact named.nested
  | object inside => exact .bracketed (by decide) inside .nil
  | array inside => exact .bracketed (by decide) inside .nil

theorem IsPatterns.nested {text : List Char} (patterns : IsPatterns text) : Nested text := by
  induction patterns with
  | one pattern => exact pattern.nested
  | cons first front back _ induction =>
      exact first.nested.append ((nested_blanks front).append
        (.plain (by decide) ((nested_blanks back).append induction)))

/-- Patterns in parentheses stand in one pair of them. -/
theorem IsParenthesized.enclosed {text : List Char} (parenthesized : IsParenthesized text) :
    Enclosed text := by
  obtain ⟨front, patterns, back, front_blank, isPatterns, back_blank, rfl⟩ := parenthesized
  have inner := isPatterns.nested.append (nested_blanks back_blank)
  exact ⟨_, (nested_blanks front_blank).append inner, rfl⟩

theorem IsVariable.head?_ne {text : List Char} (named : IsVariable text) :
    text.head? ≠ some '(' := by
  intro opened
  have begins := named.begins
  rw [opened] at begins
  cases begins

theorem IsPatterns.head?_ne {text : List Char} (patterns : IsPatterns text) :
    text.head? ≠ some '(' := by
  have pattern_head {first : List Char} (pattern : IsPattern first) (rest : List Char) :
      (first ++ rest).head? ≠ some '(' := by
    cases pattern with
    | name named =>
        have filled : first ≠ [] := by
          rintro rfl
          cases named.begins
        rw [List.head?_append_of_ne_nil _ filled]
        exact named.head?_ne
    | object => simp
    | array => simp
  cases patterns with
  | one pattern => simpa using pattern_head pattern []
  | cons first => exact pattern_head first _

/-- Patterns without parentheses are parameters only if they are one name. -/
theorem IsPatterns.isParameterList_iff {text : List Char} (patterns : IsPatterns text) :
    IsParameterList text ↔ IsVariable text := by
  refine or_iff_left ?_
  rintro ⟨inside, -, rfl⟩
  exact patterns.head?_ne rfl

end LoopItem

namespace Binding

open Text

/-- A loop is said by the text around the first word `in`, or, where there is none, around the first
word `of`: its sides are the two parts without the blanks around them. -/
theorem exists_sides {text : String} {loop : Binding} (found : parse? text = some loop) :
    ∃ word before after, (word = "in" ∨ word = "of" ∧ ¬divider "in" <:+: text.toList) ∧
      text.toList = before ++ (divider word ++ after) ∧
      GoesUpTo (divider word) before (divider word ++ after) ∧
      ofSides? before after = some loop := by
  rw [← String.ofList_toList (s := text), parse?_eq] at found
  obtain ⟨⟨before, after⟩, parted, sides⟩ := Option.bind_eq_some_iff.mp found
  rcases Option.or_eq_some_iff.mp parted with parted_in | ⟨no_in, parted_of⟩
  · obtain ⟨text_eq, upto⟩ := splitFirst?_eq_some_iff.mp parted_in
    exact ⟨"in", before, after, .inl rfl, text_eq, upto, sides⟩
  · obtain ⟨text_eq, upto⟩ := splitFirst?_eq_some_iff.mp parted_of
    have nowhere : ¬divider "in" <:+: text.toList := by
      rw [← occursIn_iff, occursIn, no_in]
      exact Bool.false_ne_true
    exact ⟨"of", before, after, .inr ⟨rfl, nowhere⟩, text_eq, upto, sides⟩

end Binding

namespace SlotData

open Text Binding LoopItem

/-- The data of a slot in a loop has the item of the loop as the parameters of a function, as it
stands in front of the word between the sides of the loop but for the blanks around it. Every item
in parentheses can stand there, and without parentheses only one that is a name. -/
theorem expression_parameters {text : String} {loop : Binding} (found : parse? text = some loop)
    (properties : List TemplateAttribute) (spread : Option String) :
    (∃ word before after, (word = "in" ∨ word = "of" ∧ ¬divider "in" <:+: text.toList) ∧
      text.toList = before ++ (divider word ++ after) ∧
      GoesUpTo (divider word) before (divider word ++ after) ∧
      loop.item.toList = trim before) ∧
    expression properties spread (some loop) =
      "JSON.stringify(" ++ loopHelper ++ "(" ++ loop.collection ++ ")" ++ ".map(" ++ loop.item ++
        " => (" ++ object properties spread ++ ")))" ∧
    (IsParenthesized loop.item.toList → IsParameterList loop.item.toList) ∧
    (IsPatterns loop.item.toList →
      (IsParameterList loop.item.toList ↔ IsVariable loop.item.toList)) := by
  obtain ⟨word, before, after, which, text_eq, upto, sides⟩ := exists_sides found
  refine ⟨⟨word, before, after, which, text_eq, upto, (eq_of_ofSides? sides).symm⟩, ?_,
    fun parenthesized => .inr parenthesized.enclosed, fun patterns => patterns.isParameterList_iff⟩
  have call : ").map(" = ")" ++ ".map(" := by decide
  unfold expression
  dsimp only
  rw [call, ← String.append_assoc]

/-- Two names in parentheses. -/
theorem expression_parameters_twoNames :
    let loop : Binding := ⟨"(item, i)", "items"⟩
    parse? "(item, i) in items" = some loop ∧ IsParenthesized loop.item.toList ∧
      IsParameterList loop.item.toList ∧
      expression [] none (some loop) =
        "JSON.stringify(__vforToArray(items).map((item, i) => (\x7b\x7d)))" := by
  intro loop
  have found : parse? "(item, i) in items" = some loop := by decide +kernel
  have item : IsVariable "item".toList := by decide +kernel
  have index : IsVariable "i".toList := by decide +kernel
  have patterns : IsPatterns ("item".toList ++ ([] ++ ',' :: ([' '] ++ "i".toList))) :=
    .cons (.name item) (List.forall_mem_nil _) (List.forall_mem_singleton.mpr rfl)
      (.one (.name index))
  have parenthesized : IsParenthesized loop.item.toList :=
    ⟨[], _, [], List.forall_mem_nil _, patterns, List.forall_mem_nil _, by decide +kernel⟩
  obtain ⟨-, -, legal, -⟩ := expression_parameters found [] none
  exact ⟨found, parenthesized, legal parenthesized, by decide +kernel⟩

/-- A pattern without parentheses is an item, but the data in which it stands is no script. -/
theorem expression_barePattern :
    let loop : Binding := ⟨"\x7b id \x7d", "items"⟩
    let written := "JSON.stringify(__vforToArray(items).map(\x7b id \x7d => (\x7b\x7d)))"
    parse? "\x7b id \x7d in items" = some loop ∧ expression [] none (some loop) = written ∧
      IsPatterns loop.item.toList ∧ ¬IsParameterList loop.item.toList ∧
      (Script.parseModule written).isOk = false ∧
      (Script.parseModule
        "JSON.stringify(__vforToArray(items).map((\x7b id \x7d) => (\x7b\x7d)))").isOk := by
  intro loop written
  have inside : Nested " id ".toList := .of_plain (List.all_eq_true.mp (by decide))
  have item_eq : loop.item.toList = '\x7b' :: " id ".toList ++ ['\x7d'] := by decide +kernel
  have patterns : IsPatterns loop.item.toList := item_eq ▸ .one (.object inside)
  have unnamed : ¬IsVariable loop.item.toList := by decide +kernel
  exact ⟨by decide +kernel, by decide +kernel, patterns,
    patterns.isParameterList_iff.not.mpr unnamed, by decide +kernel, by decide +kernel⟩

end SlotData

end IslandSlots
