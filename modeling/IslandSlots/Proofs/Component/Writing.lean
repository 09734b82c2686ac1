import IslandSlots.Proofs.Component.Sections
import IslandSlots.Proofs.Text.Search
import Mathlib.Data.List.Infix

/-!
# Blocks written and read back

How the blocks of a component file are written: opening tags with their attributes, contents, and
closing tags. What is written is read back when it stands in front of any other text, as long as
names and values are plain and a content does not end before its closing tag. For a template this
means that the templates inside it are closed.
-/

namespace IslandSlots

/-! ## Markup that begins with an angle bracket -/

/-- A mark with one `<`, at its front, does not reach over a `<` behind a text. -/
theorem prefix_of_prefix_append {mark text after : List Char} (once : '<' ∉ mark)
    (filled : text ≠ []) (found : '<' :: mark <+: text ++ '<' :: after) : '<' :: mark <+: text := by
  obtain ⟨behind, same⟩ := found
  rcases List.append_eq_append_iff.mp same with ⟨more, rfl, -⟩ | ⟨more, mark_eq, rest_eq⟩
  · exact List.prefix_append _ more
  · cases more with
    | nil =>
        rw [List.append_nil] at mark_eq
        exact mark_eq ▸ List.prefix_rfl
    | cons first more =>
        obtain ⟨rfl, -⟩ := List.cons.inj rest_eq
        -- The mark would reach over the `<` behind the text, and has none but its first.
        cases text with
        | nil => exact absurd rfl filled
        | cons c text =>
            obtain ⟨-, rfl⟩ := List.cons.inj mark_eq
            exact absurd (by simp) once

/-! ## Opening tags -/

namespace BlockAttribute

/-- An attribute as it is written, with its value in double quotes. -/
def write (attr : BlockAttribute) : List Char :=
  ' ' :: attr.name.toList ++
    match attr.value with
    | none => []
    | some value => '=' :: '"' :: value.toList ++ ['"']

/-- An attribute that can be written: it has a name, and no double quote in its value. -/
structure Plain (attr : BlockAttribute) : Prop where
  /-- The name is not empty. -/
  filled : attr.name.toList ≠ []
  /-- The name has the characters of names only. -/
  named : ∀ c ∈ attr.name.toList, BlockTag.isNameChar c
  /-- The value has no double quote. -/
  unquoted : ∀ value ∈ attr.value, '"' ∉ value.toList

end BlockAttribute

namespace BlockTag

/-- An opening tag of the given name. -/
def openingTag (name : List Char) (attributes : List BlockAttribute) : List Char :=
  '<' :: (name ++ attributes.flatMap BlockAttribute.write ++ ['>'])

theorem solid_of_isNameChar {c : Char} (named : isNameChar c) : isSpace c = false ∧ c ≠ '=' := by
  refine ⟨Bool.eq_false_iff.mpr fun blank => ?_, ?_⟩
  · simp only [isSpace, Bool.or_eq_true, beq_iff_eq] at blank
    rcases blank with ((rfl | rfl) | rfl) | rfl <;> cases named
  · rintro rfl
    cases named

/-- A name goes up to a text that begins with none of its characters. -/
theorem span_name {name behind : List Char} (named : ∀ c ∈ name, isNameChar c)
    (nameless : behind.takeWhile isNameChar = []) :
    (name ++ behind).takeWhile isNameChar = name ∧ (name ++ behind).dropWhile isNameChar = behind := by
  have dropped := List.takeWhile_append_dropWhile (p := isNameChar) (l := behind)
  rw [nameless, List.nil_append] at dropped
  rw [List.takeWhile_append_of_pos named, List.dropWhile_append_of_pos named, nameless, dropped]
  exact ⟨List.append_nil name, rfl⟩

theorem skipSpace_name {name : List Char} (filled : name ≠ []) (named : ∀ c ∈ name, isNameChar c)
    (behind : List Char) : skipSpace (name ++ behind) = name ++ behind := by
  obtain ⟨c, more, rfl⟩ := List.exists_cons_of_ne_nil filled
  exact skipSpace_cons (solid_of_isNameChar (named c List.mem_cons_self)).1 _

/-- A quoted text goes up to the next quotation mark of its kind. -/
theorem quoted?_append {mark : Char} {value : List Char} (quotes : mark = '"' ∨ mark = '\'')
    (whole : mark ∉ value) (after : List Char) :
    quoted? (mark :: (value ++ mark :: after)) = some (value, after) := by
  have nowhere : ¬[mark] <:+: value ++ [mark].dropLast := by
    simpa using mt (List.singleton_infix_iff mark value).mp whole
  have found : Text.splitFirst? [mark] (value ++ mark :: after) = some (value, after) :=
    Text.splitFirst?_eq_some_iff.mpr ⟨rfl, .of_nowhere (List.cons_ne_nil _ _) nowhere after⟩
  rcases quotes with rfl | rfl
  · exact found
  · exact found

/-- A text that goes on with attributes or ends a tag is no value and adds nothing to a name. -/
structure Follows (text : List Char) : Prop where
  /-- No character of a name is at the front. -/
  nameless : text.takeWhile isNameChar = []
  /-- No value is at the front. -/
  valueless : value? text = none

theorem follows_write {attributes : List BlockAttribute} (plain : ∀ attr ∈ attributes, attr.Plain)
    (after : List Char) : Follows (attributes.flatMap BlockAttribute.write ++ '>' :: after) := by
  cases attributes with
  | nil => exact ⟨rfl, rfl⟩
  | cons attr more =>
      obtain ⟨filled, named, -⟩ := plain attr List.mem_cons_self
      refine ⟨rfl, ?_⟩
      obtain ⟨c, name, name_eq⟩ := List.exists_cons_of_ne_nil filled
      obtain ⟨solid, other⟩ := solid_of_isNameChar (named c (by simp [name_eq]))
      have spaced (text : List Char) : skipSpace (' ' :: c :: text) = c :: text :=
        skipSpace_cons solid text
      simp [BlockAttribute.write, name_eq, value?, valuePlace?, spaced, Text.after?, other.symm]

theorem attributes_of_some {text rest : List Char} {attr : BlockAttribute}
    (found : attribute? text = some (attr, rest)) :
    attributes text = (attr :: (attributes rest).1, (attributes rest).2) := by
  rw [attributes.eq_def]
  split
  · rename_i other
    obtain ⟨rfl, rfl⟩ := Prod.mk.inj (Option.some.inj (found.symm.trans other))
    rfl
  · rename_i other
    cases found.symm.trans other

/-- An attribute that is written is read back. -/
theorem attribute?_write {attr : BlockAttribute} (plain : attr.Plain) {behind : List Char}
    (follows : Follows behind) : attribute? (attr.write ++ behind) = some (attr, behind) := by
  obtain ⟨name, value⟩ := attr
  obtain ⟨filled, named, unquoted⟩ := plain
  cases value with
  | none =>
      obtain ⟨name_eq, behind_eq⟩ := span_name named follows.nameless
      simp [BlockAttribute.write, attribute?, skipSpace_name filled named, name_eq, behind_eq,
        follows.valueless, isSpace, filled]
  | some value =>
      have quote : value? ('=' :: '"' :: (value.toList ++ '"' :: behind)) =
          some (value.toList, behind) :=
        quoted?_append (.inl rfl) (unquoted value rfl) behind
      have nameless : ('=' :: '"' :: (value.toList ++ '"' :: behind)).takeWhile isNameChar = [] :=
        rfl
      obtain ⟨name_eq, behind_eq⟩ := span_name named nameless
      simp [BlockAttribute.write, attribute?, skipSpace_name filled named, name_eq, behind_eq,
        quote, isSpace, filled]

theorem attributes_write {attributes : List BlockAttribute} (plain : ∀ attr ∈ attributes, attr.Plain)
    (after : List Char) :
    BlockTag.attributes (attributes.flatMap BlockAttribute.write ++ '>' :: after) =
      (attributes, '>' :: after) := by
  induction attributes with
  | nil => exact attributes_of_none (attribute?_cons_solid rfl after)
  | cons attr more induction =>
      obtain ⟨here, others⟩ := List.forall_mem_cons.mp plain
      rw [List.flatMap_cons, List.append_assoc,
        attributes_of_some (attribute?_write here (follows_write others after)), induction others]

/-- An opening tag that is written is read back. -/
theorem opening?_openingTag (name : List Char) {attributes : List BlockAttribute}
    (plain : ∀ attr ∈ attributes, attr.Plain) (after : List Char) :
    opening? name (openingTag name attributes ++ after) = some (attributes, after) := by
  have starts : Text.after? ('<' :: name) (openingTag name attributes ++ after) =
      some (attributes.flatMap BlockAttribute.write ++ '>' :: after) :=
    Text.after?_eq_some_iff.mpr (by simp [openingTag])
  rw [opening?, starts, Option.bind_eq_bind, Option.bind_some, attributes_write plain after]
  rfl

/-! ## Closing tags -/

theorem closing?_closingTag (name : List Char) {blanks : List Char} (blank : ∀ c ∈ blanks, isSpace c)
    (after : List Char) : closing? name (closingTag name blanks ++ after) = some after :=
  closing?_eq_some_iff.mpr ⟨blanks, blank, rfl⟩

theorem once_closingTag {name blanks : List Char} (other : '<' ∉ name)
    (blank : ∀ c ∈ blanks, isSpace c) : '<' ∉ '/' :: (name ++ blanks ++ ['>']) := by
  have solid : '<' ∉ blanks := fun member => by cases blank '<' member
  simp [other, solid]

/-- A text with no closing tag at its front has none there before a `<` either. -/
theorem closing?_append {name text : List Char} (other : '<' ∉ name) (filled : text ≠ [])
    (goes_on : ∀ blanks, (∀ c ∈ blanks, isSpace c) → ¬closingTag name blanks <+: text)
    (after : List Char) : closing? name (text ++ '<' :: after) = none := by
  refine Option.eq_none_iff_forall_ne_some.mpr fun rest closes => ?_
  obtain ⟨blanks, blank, same⟩ := closing?_eq_some_iff.mp closes
  exact goes_on blanks blank
    (prefix_of_prefix_append (once_closingTag other blank) filled ⟨rest, same.symm⟩)

/-- No closing tag of the given name stands in a text. -/
def NeverCloses (name text : List Char) : Prop :=
  ∀ blanks, (∀ c ∈ blanks, isSpace c) → ¬closingTag name blanks <:+: text

theorem neverCloses_of_nowhere {name text : List Char} (other : ¬ '<' :: '/' :: name <:+: text) :
    NeverCloses name text := fun blanks _ found =>
  other (List.IsInfix.trans ⟨[], blanks ++ ['>'], by simp [closingTag]⟩ found)

end BlockTag

/-! ## Contents -/

namespace BlockBody

open BlockTag

/-- A content goes up to its closing tag if it has none itself. -/
theorem upToClosing?_append {name content : List Char} (other : '<' ∉ name)
    (goes_on : NeverCloses name content) (after : List Char) :
    upToClosing? name (content ++ (closingTag name [] ++ after)) = some (content, after) := by
  have closes : closing? name (closingTag name [] ++ after) = some after :=
    closing?_closingTag name (by simp) after
  induction content with
  | nil =>
      rw [closingTag, List.cons_append] at closes
      rw [List.nil_append, closingTag, List.cons_append, upToClosing?, closes]
  | cons c content induction =>
      have inside : closing? name (c :: content ++ (closingTag name [] ++ after)) = none :=
        closing?_append other (List.cons_ne_nil c content)
          (fun blanks blank here => goes_on blanks blank here.isInfix) _
      rw [List.cons_append] at inside
      rw [List.cons_append, upToClosing?, inside,
        induction fun blanks blank here => goes_on blanks blank (List.infix_cons here)]
      rfl

/-- A comment is passed over up to its end. -/
theorem comment?_append {body : List Char} (whole : ¬['-', '-', '>'] <:+: body)
    (after : List Char) :
    comment? (['<', '!', '-', '-'] ++ body ++ ['-', '-', '>'] ++ after) = some after := by
  have starts : Text.after? ['<', '!', '-', '-']
      (['<', '!', '-', '-'] ++ body ++ ['-', '-', '>'] ++ after) =
        some (body ++ (['-', '-', '>'] ++ after)) :=
    Text.after?_eq_some_iff.mpr (by simp)
  have nowhere : ¬['-', '-', '>'] <:+: body ++ ['-', '-'] := fun here =>
    whole (Text.isInfix_of_append_right (List.cons_ne_nil _ _) (by simp) here)
  rw [comment?, starts, Option.bind_eq_bind, Option.bind_some,
    Text.splitFirst?_eq_some_iff.mpr ⟨rfl, .of_nowhere (List.cons_ne_nil _ _) nowhere after⟩]
  rfl

/-! ## Templates inside templates -/

/-- What stands in a tag from some place on up to what ends the tag: quoted texts, and characters
that are no quotation marks and do not end the tag. -/
inductive TagParts (ending : List Char) : List Char → Prop where
  /-- The tag ends. -/
  | done : TagParts ending []
  /-- A quoted text. -/
  | quoted {mark : Char} {value rest : List Char} (quotes : mark = '"' ∨ mark = '\'')
      (whole : mark ∉ value) (more : TagParts ending rest) :
      TagParts ending (mark :: (value ++ mark :: rest))
  /-- Another character. -/
  | char {c : Char} {rest : List Char} (unquoted : c ≠ '"' ∧ c ≠ '\'')
      (goes_on : ¬['>'] <+: c :: rest ++ ending ∧ ¬['/', '>'] <+: c :: rest ++ ending)
      (more : TagParts ending rest) : TagParts ending (c :: rest)

/-- What stands in the tag of a template between its name and what ends it. -/
structure TagRest (ending rest : List Char) : Prop where
  /-- White space is between it and the name. -/
  apart : ∀ c ∈ rest.head?, isSpace c
  /-- It does not end the tag. -/
  parts : TagParts ending rest

/-- What begins a comment or a template inside a template, or closes a template. -/
inductive Mark : List Char → Prop where
  /-- The beginning of a comment. -/
  | comment : Mark ['<', '!', '-', '-']
  /-- The beginning of a template, with what is behind the name. -/
  | nested {c : Char} (ends : isSpace c ∨ c = '/' ∨ c = '>') : Mark ('<' :: (templateName ++ [c]))
  /-- A closing tag. -/
  | closing {blanks : List Char} (blank : ∀ c ∈ blanks, isSpace c) :
      Mark (closingTag templateName blanks)

/-- A content of a template in which each template is closed and each comment ends. -/
inductive Balanced : List Char → Prop where
  /-- No content. -/
  | nil : Balanced []
  /-- A comment. -/
  | comment {body rest : List Char} (whole : ¬['-', '-', '>'] <:+: body) (more : Balanced rest) :
      Balanced (['<', '!', '-', '-'] ++ body ++ ['-', '-', '>'] ++ rest)
  /-- A template that is nothing but one tag. -/
  | whole {inside rest : List Char} (tag : TagRest ['/', '>'] inside) (more : Balanced rest) :
      Balanced ('<' :: (templateName ++ inside ++ ['/', '>'] ++ rest))
  /-- A template with a content. -/
  | nested {inside content blanks rest : List Char} (tag : TagRest ['>'] inside)
      (within : Balanced content) (blank : ∀ c ∈ blanks, isSpace c) (more : Balanced rest) :
      Balanced ('<' :: (templateName ++ inside ++ ['>'] ++
        (content ++ (closingTag templateName blanks ++ rest))))
  /-- A character of the text. -/
  | char {c : Char} {rest : List Char} (plain : ∀ mark, Mark mark → ¬mark <+: c :: rest)
      (more : Balanced rest) : Balanced (c :: rest)

theorem Mark.once {mark : List Char} (begins : Mark mark) : ∃ tail, mark = '<' :: tail ∧ '<' ∉ tail := by
  cases begins with
  | comment => exact ⟨_, rfl, by decide⟩
  | @nested c ends =>
      refine ⟨_, rfl, ?_⟩
      rcases ends with blank | rfl | rfl
      · have solid : '<' ≠ c := by
          rintro rfl
          cases blank
        simp [templateName, solid]
      · decide
      · decide
  | closing blank => exact ⟨_, rfl, once_closingTag (by decide) blank⟩

/-- A text with no mark at its front has none there before a `<` either. -/
theorem Mark.not_prefix_append {text : List Char} (filled : text ≠ [])
    (plain : ∀ mark, Mark mark → ¬mark <+: text) (after : List Char) :
    ∀ mark, Mark mark → ¬mark <+: text ++ '<' :: after := by
  intro mark begins found
  obtain ⟨tail, rfl, once⟩ := begins.once
  exact plain _ begins (prefix_of_prefix_append once filled found)

/-- Characters that end no tag and quote nothing may stand in a tag. -/
theorem TagParts.text {ending text rest : List Char}
    (plain : ∀ c ∈ text, c ≠ '"' ∧ c ≠ '\'' ∧ c ≠ '/' ∧ c ≠ '>') (more : TagParts ending rest) :
    TagParts ending (text ++ rest) := by
  induction text with
  | nil => exact more
  | cons c text induction =>
      obtain ⟨⟨double, single, slash, closing⟩, later⟩ := List.forall_mem_cons.mp plain
      refine .char ⟨double, single⟩ ?_ (induction later)
      simp [slash.symm, closing.symm]

/-- Text with no angle bracket in it may stand in a content. -/
theorem Balanced.text {text rest : List Char} (plain : '<' ∉ text) (more : Balanced rest) :
    Balanced (text ++ rest) := by
  induction text with
  | nil => exact more
  | cons c text induction =>
      refine .char (fun mark begins here => ?_) (induction (List.not_mem_of_not_mem_cons plain))
      obtain ⟨tail, rfl, -⟩ := begins.once
      exact List.ne_of_not_mem_cons plain (List.cons_prefix_cons.mp here).1

/-- An angle bracket may stand in a content before a character that begins neither a comment nor
the name of a template nor a closing tag. -/
theorem Balanced.bracket {c : Char} {rest : List Char} (plain : c ≠ '!' ∧ c ≠ 't' ∧ c ≠ '/')
    (more : Balanced (c :: rest)) : Balanced ('<' :: c :: rest) := by
  obtain ⟨exclamation, letter, slash⟩ := plain
  refine .char (fun mark begins here => ?_) more
  cases begins with
  | comment => simp [exclamation.symm] at here
  | nested ends => simp [templateName, letter.symm] at here
  | closing blank => simp [closingTag, slash.symm] at here

theorem tagEnd_of_quoted {text value rest : List Char} (found : quoted? text = some (value, rest)) :
    tagEnd text = tagEnd rest := by
  cases text with
  | nil => cases found
  | cons c text =>
      rw [tagEnd.eq_def]
      simp only
      split
      · rename_i other
        cases found.symm.trans other
        rfl
      · rename_i other
        cases found.symm.trans other

theorem tagEnd_of_unquoted {c : Char} (unquoted : c ≠ '"' ∧ c ≠ '\'') (text : List Char) :
    tagEnd (c :: text) =
      if c = '>' || (c = '/' && text.head? = some '>') then c :: text else tagEnd text := by
  have none : quoted? (c :: text) = none := by simp [quoted?, unquoted]
  rw [tagEnd.eq_def]
  simp only
  split
  · rename_i other
    cases none.symm.trans other
  · rfl

/-- A tag is read up to what ends it. -/
theorem tagEnd_append {ending inside : List Char} (ends : ending = ['>'] ∨ ending = ['/', '>'])
    (parts : TagParts ending inside) (after : List Char) :
    tagEnd (inside ++ (ending ++ after)) = ending ++ after := by
  induction parts with
  | done =>
      rcases ends with rfl | rfl
      · exact tagEnd_of_unquoted (by decide) after
      · exact tagEnd_of_unquoted (by decide) ('>' :: after)
  | @quoted mark value rest quotes whole more induction =>
      have found : quoted? (mark :: (value ++ mark :: rest) ++ (ending ++ after)) =
          some (value, rest ++ (ending ++ after)) := by
        rw [List.cons_append, List.append_assoc]
        exact quoted?_append quotes whole _
      rw [tagEnd_of_quoted found, induction]
  | @char c rest unquoted goes_on more induction =>
      have filled : rest ++ ending ≠ [] := by
        rcases ends with rfl | rfl <;> simp
      obtain ⟨d, behind, behind_eq⟩ := List.exists_cons_of_ne_nil filled
      have inside : ¬(c = '>' || (c = '/' && (rest ++ (ending ++ after)).head? = some '>')) := by
        rw [List.cons_append, behind_eq] at goes_on
        rw [← List.append_assoc, behind_eq]
        intro here
        simp only [Bool.or_eq_true, Bool.and_eq_true, decide_eq_true_eq, List.cons_append,
          List.head?_cons, Option.some.injEq] at here
        rcases here with rfl | ⟨rfl, rfl⟩
        · exact goes_on.1 (List.prefix_append ['>'] _)
        · exact goes_on.2 (List.prefix_append ['/', '>'] _)
      rw [List.cons_append, tagEnd_of_unquoted unquoted, if_neg inside, induction]

/-- What ends the tag of a template inside a template. -/
def NestedTag.ending : NestedTag → List Char
  | .whole _ => ['/', '>']
  | .opening _ => ['>']

/-- The tag of a template inside a template is read. -/
theorem nestedTag?_append (tag : NestedTag) {inside : List Char} (rest : TagRest tag.ending inside) :
    nestedTag? ('<' :: (templateName ++ inside ++ tag.ending ++ tag.behind)) = some tag := by
  have ends : tag.ending = ['>'] ∨ tag.ending = ['/', '>'] := by
    cases tag with
    | whole rest => exact .inr rfl
    | opening content => exact .inl rfl
  have starts : Text.after? ('<' :: templateName)
      ('<' :: (templateName ++ inside ++ tag.ending ++ tag.behind)) =
        some (inside ++ (tag.ending ++ tag.behind)) :=
    Text.after?_eq_some_iff.mpr (by simp)
  have apart : (inside ++ (tag.ending ++ tag.behind)).head?.any fun c =>
      isSpace c || c == '/' || c == '>' := by
    cases inside with
    | nil => rcases ends with ending_eq | ending_eq <;> simp [ending_eq]
    | cons c inside => simp [rest.apart c rfl]
  rw [nestedTag?, starts, Option.bind_eq_bind, Option.bind_some, if_pos apart,
    tagEnd_append ends rest.parts]
  cases tag with
  | whole rest => rfl
  | opening content => rfl

theorem comment?_eq_none {text : List Char} (other : ¬['<', '!', '-', '-'] <+: text) :
    comment? text = none := by
  simp [comment?, Text.after?, other]

theorem nestedTag?_eq_none {text : List Char}
    (other : ∀ c, (isSpace c ∨ c = '/' ∨ c = '>') → ¬ '<' :: (templateName ++ [c]) <+: text) :
    nestedTag? text = none := by
  cases starts : Text.after? ('<' :: templateName) text with
  | none => simp [nestedTag?, starts]
  | some behind =>
      have text_eq := Text.eq_of_after? starts
      rw [nestedTag?, starts, Option.bind_eq_bind, Option.bind_some]
      cases behind with
      | nil => rfl
      | cons c behind =>
          refine if_neg fun ends => other c (by simpa [or_assoc] using ends) ⟨behind, ?_⟩
          simp [text_eq]

/-! ## The end of a content -/

theorem passed?_eq_none {text : List Char} (comment : comment? text = none)
    (nested : nestedTag? text = none) : passed? text = none := by
  rw [passed?.eq_def]
  split
  · rename_i other
    cases comment.symm.trans other
  · split
    · rfl
    · rename_i other
      cases nested.symm.trans other
    · rename_i other
      cases nested.symm.trans other

theorem passed?_of_comment {text rest : List Char} (found : comment? text = some rest) :
    ∃ shorter, passed? text = some ⟨rest, shorter⟩ := by
  refine ⟨length_of_comment? found, ?_⟩
  rw [passed?.eq_def]
  split
  · rename_i other
    cases found.symm.trans other
    rfl
  · rename_i other
    cases found.symm.trans other

theorem passed?_of_whole {text rest : List Char} (comment : comment? text = none)
    (found : nestedTag? text = some (.whole rest)) :
    ∃ shorter, passed? text = some ⟨rest, shorter⟩ := by
  refine ⟨length_of_nestedTag? found, ?_⟩
  rw [passed?.eq_def]
  split
  · rename_i other
    cases comment.symm.trans other
  · split
    · rename_i other
      cases found.symm.trans other
    · rename_i other
      cases found.symm.trans other
      rfl
    · rename_i other
      cases found.symm.trans other

theorem passed?_of_opening {text content rest : List Char} (comment : comment? text = none)
    (found : nestedTag? text = some (.opening content))
    (closes : closing? templateName (contentEnd content).val = some rest) :
    ∃ shorter, passed? text = some ⟨rest, shorter⟩ := by
  have inside := length_of_nestedTag? found
  have bound := (contentEnd content).property
  have behind := length_of_closing? closes
  refine ⟨Nat.lt_trans (Nat.lt_of_lt_of_le behind bound) inside, ?_⟩
  rw [passed?.eq_def]
  split
  · rename_i other
    cases comment.symm.trans other
  · split
    · rename_i other
      cases found.symm.trans other
    · rename_i other
      cases found.symm.trans other
    · rename_i other
      cases found.symm.trans other
      simp only
      split
      · rename_i same
        cases closes.symm.trans same
        rfl
      · rename_i same
        cases closes.symm.trans same

theorem contentEnd_of_passed {text rest : List Char} {shorter : rest.length < text.length}
    (found : passed? text = some ⟨rest, shorter⟩) :
    (contentEnd text).val = (contentEnd rest).val := by
  cases text with
  | nil => exact absurd shorter (Nat.not_lt_zero _)
  | cons c tail =>
      rw [contentEnd.eq_def]
      simp only
      split
      · rename_i other
        cases found.symm.trans other
        rfl
      · rename_i other
        cases found.symm.trans other

theorem contentEnd_of_closing {text rest : List Char} (found : passed? text = none)
    (closes : closing? templateName text = some rest) : (contentEnd text).val = text := by
  cases text with
  | nil => cases closes
  | cons c tail =>
      rw [contentEnd.eq_def]
      simp only
      split
      · rename_i other
        cases found.symm.trans other
      · rw [if_pos (by simp [closes])]

theorem contentEnd_of_char {c : Char} {text : List Char} (found : passed? (c :: text) = none)
    (goes_on : closing? templateName (c :: text) = none) :
    (contentEnd (c :: text)).val = (contentEnd text).val := by
  rw [contentEnd.eq_def]
  simp only
  split
  · rename_i other
    cases found.symm.trans other
  · rw [if_neg (by simp [goes_on])]

/-- A content in which the templates are closed goes up to the next closing tag. -/
theorem contentEnd_append {content : List Char} (balanced : Balanced content) {blanks : List Char}
    (blank : ∀ c ∈ blanks, isSpace c) (after : List Char) :
    (contentEnd (content ++ (closingTag templateName blanks ++ after))).val =
      closingTag templateName blanks ++ after := by
  -- What is behind the content stays open, since a template inside has its own closing tag there.
  induction balanced generalizing blanks after with
  | nil =>
      have passed : passed? (closingTag templateName blanks ++ after) = none :=
        passed?_eq_none (comment?_eq_none (by simp [closingTag]))
          (nestedTag?_eq_none (by simp [closingTag, templateName]))
      exact contentEnd_of_closing passed (closing?_closingTag templateName blank after)
  | @comment body rest whole more induction =>
      have found := comment?_append whole (rest ++ (closingTag templateName blanks ++ after))
      rw [← List.append_assoc _ rest] at found
      obtain ⟨_, passed⟩ := passed?_of_comment found
      rw [contentEnd_of_passed passed, induction blank after]
  | @whole inside rest tag more induction =>
      have found : nestedTag? ('<' :: (templateName ++ inside ++ ['/', '>'] ++ rest) ++
          (closingTag templateName blanks ++ after)) =
            some (.whole (rest ++ (closingTag templateName blanks ++ after))) := by
        rw [List.cons_append, List.append_assoc]
        exact nestedTag?_append (.whole _) tag
      obtain ⟨_, passed⟩ := passed?_of_whole (comment?_eq_none (by simp [templateName])) found
      exact (contentEnd_of_passed passed).trans (induction blank after)
  | @nested inside content inner_blanks rest tag within inner_blank more inner outer =>
      have found : nestedTag? ('<' :: (templateName ++ inside ++ ['>'] ++
          (content ++ (closingTag templateName inner_blanks ++ rest))) ++
            (closingTag templateName blanks ++ after)) =
          some (.opening (content ++ (closingTag templateName inner_blanks ++
            (rest ++ (closingTag templateName blanks ++ after))))) := by
        rw [List.cons_append, List.append_assoc, List.append_assoc content,
          List.append_assoc (closingTag templateName inner_blanks)]
        exact nestedTag?_append (.opening _) tag
      have closes := closing?_closingTag templateName inner_blank
        (rest ++ (closingTag templateName blanks ++ after))
      rw [← inner inner_blank] at closes
      obtain ⟨_, passed⟩ :=
        passed?_of_opening (comment?_eq_none (by simp [templateName])) found closes
      exact (contentEnd_of_passed passed).trans (outer blank after)
  | @char c rest plain more induction =>
      have unmarked := Mark.not_prefix_append (List.cons_ne_nil c rest) plain
        ('/' :: (templateName ++ blanks ++ ['>']) ++ after)
      have passed : passed? (c :: rest ++ (closingTag templateName blanks ++ after)) = none :=
        passed?_eq_none (comment?_eq_none (unmarked _ .comment))
          (nestedTag?_eq_none fun c ends => unmarked _ (.nested ends))
      have goes_on : closing? templateName (c :: rest ++ (closingTag templateName blanks ++ after)) =
          none :=
        closing?_append (by decide) (List.cons_ne_nil c rest)
          (fun _ blank => plain _ (.closing blank)) _
      exact (contentEnd_of_char passed goes_on).trans (induction blank after)

/-- The content of a template is read back up to its closing tag. -/
theorem template?_append {content : List Char} (balanced : Balanced content) {blanks : List Char}
    (blank : ∀ c ∈ blanks, isSpace c) (after : List Char) :
    BlockBody.template? (content ++ (closingTag templateName blanks ++ after)) =
      some (content, after) := by
  have ending_eq := contentEnd_append balanced blank after
  have closes := closing?_closingTag templateName blank after
  refine Option.map_eq_some_iff.mpr ⟨after, ?_, ?_⟩
  · rw [ending_eq, closes]
  · simp [ending_eq]

end BlockBody

end IslandSlots
