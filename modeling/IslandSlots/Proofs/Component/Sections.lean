import IslandSlots.Component.File
import IslandSlots.Proofs.Outcome
import IslandSlots.Proofs.Text.Search
import Mathlib.Data.List.TakeWhile

/-!
# A component file as a run of sections

A component file that can be read is a run of sections with white space around them. Whether a
block counts is told by its tag name alone as long as its content comes to an end, and a file keeps
the first template and style and the last script of each kind.
-/

namespace IslandSlots

/-! ## Opening and closing tags -/

namespace BlockTag

/-- A closing tag of the given name, with the given white space in it. -/
def closingTag (name blanks : List Char) : List Char :=
  '<' :: '/' :: (name ++ blanks ++ ['>'])

theorem skipSpace_append {blanks : List Char} (blank : ∀ c ∈ blanks, isSpace c) (text : List Char) :
    skipSpace (blanks ++ text) = skipSpace text :=
  List.dropWhile_append_of_pos blank

theorem skipSpace_cons {c : Char} (solid : isSpace c = false) (text : List Char) :
    skipSpace (c :: text) = c :: text :=
  List.dropWhile_cons_of_neg (by simp [solid])

/-- A text is its leading white space and what is left after that. -/
theorem exists_blanks (text : List Char) :
    ∃ blanks, text = blanks ++ skipSpace text ∧ ∀ c ∈ blanks, isSpace c :=
  ⟨_, List.takeWhile_append_dropWhile.symm, fun _ member => List.mem_takeWhile_imp member⟩

/-- What is read as a closing tag is one. -/
theorem closing?_eq_some_iff {name text rest : List Char} :
    closing? name text = some rest ↔
      ∃ blanks, (∀ c ∈ blanks, isSpace c) ∧ text = closingTag name blanks ++ rest := by
  constructor
  · intro closes
    obtain ⟨behind, starts, ends⟩ := Option.bind_eq_some_iff.mp closes
    obtain ⟨blanks, behind_eq, blank⟩ := exists_blanks behind
    refine ⟨blanks, blank, ?_⟩
    rw [Text.eq_of_after? starts, behind_eq, Text.eq_of_after? ends]
    simp [closingTag]
  · rintro ⟨blanks, blank, rfl⟩
    refine Option.bind_eq_some_iff.mpr ⟨blanks ++ '>' :: rest, Text.after?_eq_some_iff.mpr ?_, ?_⟩
    · simp [closingTag]
    · rw [skipSpace_append blank, skipSpace_cons rfl]
      exact Text.after?_eq_some_iff.mpr rfl

theorem attributes_of_none {text : List Char} (found : attribute? text = none) :
    attributes text = ([], text) := by
  rw [attributes.eq_def]
  split
  · rename_i other
    simp [found] at other
  · rfl

theorem attribute?_cons_solid {c : Char} (solid : isSpace c = false) (text : List Char) :
    attribute? (c :: text) = none := by
  simp [attribute?, solid]

/-- Behind the name in an opening tag is white space or the end of the tag. -/
theorem exists_of_opening? {name text rest : List Char} {found : List BlockAttribute}
    (opens : opening? name text = some (found, rest)) :
    ∃ c behind, text = '<' :: (name ++ c :: behind) ∧ (isSpace c ∨ c = '>') := by
  obtain ⟨behind, starts, ends⟩ := Option.bind_eq_some_iff.mp opens
  obtain ⟨inside, closes, -⟩ := Option.bind_eq_some_iff.mp ends
  have text_eq := Text.eq_of_after? starts
  have closes_eq := Text.eq_of_after? closes
  cases behind with
  | nil =>
      rw [attributes_of_none rfl] at closes_eq
      cases closes_eq
  | cons c behind =>
      refine ⟨c, behind, text_eq, ?_⟩
      cases solid : isSpace c with
      | true => exact .inl rfl
      | false =>
          rw [attributes_of_none (attribute?_cons_solid solid behind), skipSpace_cons solid]
            at closes_eq
          exact .inr (List.cons.inj closes_eq).1

end BlockTag

namespace Section

open BlockTag BlockBody

/-- The name of a block: a letter, and then letters, digits and hyphens. -/
structure IsTagName (name : List Char) : Prop where
  /-- A letter is at the front. -/
  letter : name.head?.any Char.isAlpha
  /-- There are no other characters. -/
  named : ∀ c ∈ name, isNameChar c

theorem isTagName_templateName : IsTagName templateName := ⟨rfl, List.all_eq_true.mp rfl⟩

theorem isTagName_scriptName : IsTagName scriptName := ⟨rfl, List.all_eq_true.mp rfl⟩

theorem isTagName_styleName : IsTagName styleName := ⟨rfl, List.all_eq_true.mp rfl⟩

section Opening

variable {name text rest : List Char} {attributes : List BlockAttribute}

/-- The name in an opening tag is the one in front of the text. -/
theorem leadingName_of_opening? (named : IsTagName name)
    (opens : opening? name ('<' :: text) = some (attributes, rest)) : leadingName text = name := by
  obtain ⟨c, behind, text_eq, ends⟩ := exists_of_opening? opens
  obtain ⟨-, rfl⟩ := List.cons.inj text_eq
  have other : isNameChar c = false := by
    rcases ends with blank | rfl
    · simp only [isSpace, Bool.or_eq_true, beq_iff_eq] at blank
      rcases blank with ((rfl | rfl) | rfl) | rfl <;> rfl
    · rfl
  have letter : (name ++ c :: behind).head?.any Char.isAlpha := by
    cases name with
    | nil => cases named.letter
    | cons first more => exact named.letter
  rw [leadingName, if_pos letter, List.takeWhile_append_of_pos named.named,
    List.takeWhile_cons_of_neg (by simp [other]), List.append_nil]

/-- A tag is read with no other name than its own. -/
theorem opening?_other {other : List Char} (named : IsTagName name) (other_named : IsTagName other)
    (apart : name ≠ other) (opens : opening? name text = some (attributes, rest)) :
    opening? other text = none := by
  obtain ⟨c, behind, rfl, -⟩ := exists_of_opening? opens
  refine Option.eq_none_iff_forall_ne_some.mpr fun ⟨found, inside⟩ same => apart ?_
  exact (leadingName_of_opening? named opens).symm.trans (leadingName_of_opening? other_named same)

theorem block?_other (size : Nat) {other : List Char} (named : IsTagName name)
    (other_named : IsTagName other) (apart : name ≠ other) (content? : ContentReader)
    (opens : opening? name text = some (attributes, rest)) :
    block? size other content? text = none := by
  rw [block?, opening?_other named other_named apart opens]
  rfl

/-- A block of any name can be passed over up to its first closing tag. -/
theorem custom?_of_opening? (named : IsTagName name)
    (opens : opening? name text = some (attributes, rest)) :
    custom? text = (upToClosing? name rest).map Prod.snd := by
  obtain ⟨c, behind, rfl, -⟩ := exists_of_opening? opens
  have filled : name.isEmpty = false := by
    cases name with
    | nil => cases named.letter
    | cons first more => rfl
  simp only [custom?, leadingName_of_opening? named opens, filled, opens, Option.bind_eq_bind,
    Option.bind_some]
  cases upToClosing? name rest with
  | none => rfl
  | some found => rfl

theorem comment?_of_opening? (named : IsTagName name)
    (opens : opening? name text = some (attributes, rest)) : comment? text = none := by
  obtain ⟨c, behind, rfl, -⟩ := exists_of_opening? opens
  cases name with
  | nil => cases named.letter
  | cons first more =>
      have other : first ≠ '!' := by
        rintro rfl
        cases named.letter
      simp [comment?, Text.after?, other.symm]

/-- A block with the tag name of a template is read as one if its content is closed. Otherwise it is
passed over up to the first closing tag. -/
theorem read?_template (size : Nat) (opens : opening? templateName text = some (attributes, rest)) :
    read? size text =
      match BlockBody.template? rest with
      | some (content, after) =>
        some (.template ⟨attributes, String.ofList content, size - Text.byteLength rest⟩, after)
      | none => (upToClosing? templateName rest).map fun found => (.other, found.2) := by
  have no_script := block?_other size isTagName_templateName isTagName_scriptName (by decide)
    (upToClosing? scriptName) opens
  have no_style := block?_other size isTagName_templateName isTagName_styleName (by decide)
    (upToClosing? styleName) opens
  rw [read?, template?, script?, style?, no_script, no_style,
    custom?_of_opening? isTagName_templateName opens,
    comment?_of_opening? isTagName_templateName opens, block?, opens, Option.bind_eq_bind,
    Option.bind_some]
  cases body : BlockBody.template? rest with
  | none => simp [body, Function.comp_def]
  | some found => simp [body]

/-- A script block is read up to its first closing tag. -/
theorem read?_script (size : Nat) {content after : List Char}
    (opens : opening? scriptName text = some (attributes, rest))
    (body : upToClosing? scriptName rest = some (content, after)) :
    read? size text =
      some (.script ⟨attributes, String.ofList content, size - Text.byteLength rest⟩, after) := by
  rw [read?, template?, script?, block?_other size isTagName_scriptName isTagName_templateName
    (by decide) BlockBody.template? opens, block?, opens]
  simp [body]

/-- A style block is read up to its first closing tag. -/
theorem read?_style (size : Nat) {content after : List Char}
    (opens : opening? styleName text = some (attributes, rest))
    (body : upToClosing? styleName rest = some (content, after)) :
    read? size text =
      some (.style ⟨attributes, String.ofList content, size - Text.byteLength rest⟩, after) := by
  rw [read?, template?, script?, style?, block?_other size isTagName_styleName isTagName_templateName
    (by decide) BlockBody.template? opens, block?_other size isTagName_styleName
    isTagName_scriptName (by decide) (upToClosing? scriptName) opens, block?, opens]
  simp [body]

/-- The names of the blocks that count. -/
def keptNames : List (List Char) :=
  [templateName, scriptName, styleName]

/-- A block of any other name is passed over up to its first closing tag. -/
theorem read?_custom (size : Nat) {content after : List Char} (named : IsTagName name)
    (other : name ∉ keptNames) (opens : opening? name text = some (attributes, rest))
    (body : upToClosing? name rest = some (content, after)) :
    read? size text = some (.other, after) := by
  simp only [keptNames, List.mem_cons, List.not_mem_nil, or_false, not_or] at other
  obtain ⟨no_template, no_script, no_style⟩ := other
  rw [read?, template?, script?, style?,
    block?_other size named isTagName_templateName no_template BlockBody.template? opens,
    block?_other size named isTagName_scriptName no_script (upToClosing? scriptName) opens,
    block?_other size named isTagName_styleName no_style (upToClosing? styleName) opens,
    custom?_of_opening? named opens, body]
  rfl

end Opening

/-- A text and the sections that it is read as, each with the text that it is at the front of. -/
inductive Reads (size : Nat) : List Char → List (List Char × Section) → Prop where
  /-- Nothing but white space is left. -/
  | done {text : List Char} (blank : skipSpace text = []) : Reads size text []
  /-- A section is read. -/
  | next {text rest : List Char} {first : Section} {others : List (List Char × Section)}
      (reads : read? size (skipSpace text) = some (first, rest))
      (more : Reads size rest others) : Reads size text ((skipSpace text, first) :: others)

/-- A text has the sections that it is read as, and can be read in no other way. -/
theorem all_eq_ok_iff {size : Nat} {lost : Bool} {text : List Char} {sections : List Section} :
    all size lost text = .ok sections ↔
      ∃ parts, Reads size text parts ∧ sections = parts.map Prod.snd := by
  fun_induction all size lost text generalizing sections with
  | case1 lost text first rest found induction =>
      constructor
      · intro read
        obtain ⟨more, more_eq, rfl⟩ := map_eq_ok.mp read
        obtain ⟨others, reads, rfl⟩ := induction.mp more_eq
        exact ⟨_, .next found reads, rfl⟩
      · rintro ⟨parts, reads, rfl⟩
        cases reads with
        | done blank =>
            rw [blank] at found
            cases found
        | next same more =>
            obtain ⟨rfl, rfl⟩ := Prod.mk.inj (Option.some.inj (found.symm.trans same))
            exact map_eq_ok.mpr ⟨_, induction.mpr ⟨_, more, rfl⟩, rfl⟩
  | case2 lost text found blank =>
      constructor
      · rintro ⟨⟩
        exact ⟨[], .done (List.isEmpty_iff.mp blank), rfl⟩
      · rintro ⟨parts, reads, rfl⟩
        cases reads with
        | done => rfl
        | next other => cases found.symm.trans other
  | case3 lost text found solid | case4 lost text found solid =>
      constructor
      · intro read
        cases read
      · rintro ⟨parts, reads, rfl⟩
        cases reads with
        | done blank => exact absurd (List.isEmpty_iff.mpr blank) solid
        | next other => cases found.symm.trans other

/-- The block of a section of the given name, if it is one that counts. -/
def blockOf? (name : List Char) : Section → Option Block
  | .template block => if name = templateName then some block else none
  | .script block => if name = scriptName then some block else none
  | .style block => if name = styleName then some block else none
  | .other => none

end Section

namespace ComponentFile

open BlockBody Section

/-- A file keeps the first template and style and the last script of each kind. -/
theorem ofSections_eq (sections : List Section) :
    ofSections sections =
      { template := (sections.filterMap (blockOf? templateName)).head?
        setupScript := ((sections.filterMap (blockOf? scriptName)).filter (·.has "setup")).getLast?
        script := ((sections.filterMap (blockOf? scriptName)).filter (!·.has "setup")).getLast?
        style := (sections.filterMap (blockOf? styleName)).head? } := by
  induction sections using List.reverseRecOn with
  | nil => rfl
  | append_singleton sections part induction =>
      rw [ofSections, List.foldl_append, ← ofSections, induction]
      cases part with
      | template block =>
          simp [add, blockOf?, templateName, scriptName, styleName, List.filterMap_append]
      | script block =>
          cases setup : block.has "setup" <;>
            simp [add, blockOf?, templateName, scriptName, styleName, List.filterMap_append, setup]
      | style block =>
          simp [add, blockOf?, templateName, scriptName, styleName, List.filterMap_append]
      | other => simp [add, blockOf?, List.filterMap_append, List.filterMap_cons]

/-- A file that is read has the sections that its text is read as. -/
theorem read_eq_ok_iff {source : String} {file : ComponentFile} :
    read source = .ok file ↔
      ∃ parts, Reads (Text.byteLength source.toList) source.toList parts ∧
        file = ofSections (parts.map Prod.snd) := by
  constructor
  · intro found
    rw [read] at found
    split at found
    · rename_i sections sections_eq
      cases found
      obtain ⟨parts, reads, rfl⟩ := all_eq_ok_iff.mp sections_eq
      exact ⟨parts, reads, rfl⟩
    · cases found
  · rintro ⟨parts, reads, rfl⟩
    rw [read, ofText, all_eq_ok_iff.mpr ⟨parts, reads, rfl⟩]

end ComponentFile

end IslandSlots
