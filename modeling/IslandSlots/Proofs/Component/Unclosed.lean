import IslandSlots.Proofs.Component.Writing
import IslandSlots.Slot.Annotated

/-!
# Templates that are never closed

A template block counts if its content comes to a closing tag that no template inside it takes.
Where the templates inside take every closing tag, the block is read as one of any other name: it is
passed over up to the first of these tags, and the file may be left with no template at all.
-/

namespace IslandSlots

open BlockTag BlockBody

namespace BlockBody

/-- A content ends at a closing tag or with the text. -/
theorem closes_contentEnd (text : List Char) :
    (contentEnd text).val = [] ∨ ∃ rest, closing? templateName (contentEnd text).val = some rest := by
  rw [contentEnd.eq_def]
  cases text with
  | nil => exact .inl rfl
  | cons c tail =>
      simp only
      split
      · rename_i rest shorter _
        exact closes_contentEnd rest
      · split
        · rename_i closes
          exact .inr (Option.isSome_iff_exists.mp closes)
        · exact closes_contentEnd tail
termination_by text.length
decreasing_by
  · assumption
  · exact Nat.lt_succ_self _

/-- A content with no closing tag of its own goes up to the end of the text. -/
theorem template?_eq_none_iff {text : List Char} :
    BlockBody.template? text = none ↔ (contentEnd text).val = [] := by
  rw [BlockBody.template?, Option.map_eq_none_iff]
  constructor
  · intro goes_on
    rcases closes_contentEnd text with ends | ⟨rest, closes⟩
    · exact ends
    · cases goes_on.symm.trans closes
  · intro ends
    rw [ends]
    rfl

end BlockBody

namespace Section

theorem Reads.read? {size : Nat} {text : List Char} {parts : List (List Char × Section)}
    (reads : Reads size text parts) {start : List Char} {part : Section}
    (member : (start, part) ∈ parts) : ∃ rest, Section.read? size start = some (part, rest) := by
  induction reads with
  | done => cases member
  | @next text rest first others found more induction =>
      rcases List.mem_cons.mp member with same | later
      · cases same
        exact ⟨rest, found⟩
      · exact induction later

/-- What is read as a template begins with the opening tag of one. -/
theorem opening?_of_template {size : Nat} {start rest : List Char} {block : Block}
    (found : Section.read? size start = some (.template block, rest)) :
    ∃ inside, opening? templateName start = some (block.attributes, inside) := by
  rw [Section.read?] at found
  split at found
  · rename_i template
    cases found
    obtain ⟨⟨attributes, inside⟩, opens, body⟩ := Option.bind_eq_some_iff.mp template
    obtain ⟨⟨content, after⟩, -, same⟩ := Option.bind_eq_some_iff.mp body
    cases same
    exact ⟨inside, opens⟩
  · split at found
    · cases found
    · split at found
      · cases found
      · obtain ⟨behind, -, same⟩ := Option.map_eq_some_iff.mp found
        cases same

end Section

namespace ComponentFile

open Section

/-- A top-level block has the tag name of a template: the section that it is read as, the attributes
of the tag and what is behind the tag. -/
def OpensTemplate (parts : List (List Char × Section)) (part : Section)
    (attributes : List BlockAttribute) (inside : List Char) : Prop :=
  ∃ start, (start, part) ∈ parts ∧ opening? templateName start = some (attributes, inside)

/-- A block with the tag name of a template is read as one if its content is closed. Otherwise it is
passed over, up to a closing tag that a template inside it takes. -/
theorem section_of_opensTemplate {size : Nat} {text : List Char} {parts : List (List Char × Section)}
    (reads : Reads size text parts) {part : Section} {attributes : List BlockAttribute}
    {inside : List Char} (opens : OpensTemplate parts part attributes inside) :
    ((contentEnd inside).val ≠ [] ∧ ∃ content openEnd, part = .template ⟨attributes, content, openEnd⟩) ∨
    ((contentEnd inside).val = [] ∧ part = .other ∧ (upToClosing? templateName inside).isSome) := by
  obtain ⟨start, member, tag⟩ := opens
  obtain ⟨rest, found⟩ := reads.read? member
  rw [read?_template size tag] at found
  cases body : BlockBody.template? inside with
  | some closed =>
      rw [body] at found
      cases found
      exact .inl ⟨fun ends => by simp [template?_eq_none_iff.mpr ends] at body, _, _, rfl⟩
  | none =>
      rw [body] at found
      obtain ⟨passed, passed_eq, same⟩ := Option.map_eq_some_iff.mp found
      cases same
      exact .inr ⟨template?_eq_none_iff.mp body, rfl, by simp [passed_eq]⟩

/-- A block with the tag name of a template is read as one with its whole content if the templates
in the content are closed. -/
theorem section_of_balanced {size : Nat} {text : List Char} {parts : List (List Char × Section)}
    (reads : Reads size text parts) {part : Section} {attributes : List BlockAttribute}
    {content blanks after : List Char} (balanced : Balanced content)
    (blank : ∀ c ∈ blanks, isSpace c)
    (opens : OpensTemplate parts part attributes
      (content ++ (closingTag templateName blanks ++ after))) :
    ∃ openEnd, part = .template ⟨attributes, String.ofList content, openEnd⟩ := by
  obtain ⟨start, member, tag⟩ := opens
  obtain ⟨rest, found⟩ := reads.read? member
  rw [read?_template size tag, template?_append balanced blank after] at found
  cases found
  exact ⟨_, rfl⟩

/-- A file has a template if and only if one of its sections is one. -/
theorem template_ofSections_isSome_iff {sections : List Section} :
    (ofSections sections).template.isSome ↔ ∃ block, Section.template block ∈ sections := by
  rw [ofSections_eq, List.isSome_head?]
  constructor
  · intro filled
    obtain ⟨block, member⟩ := List.exists_mem_of_ne_nil _ filled
    obtain ⟨part, part_member, found⟩ := List.mem_filterMap.mp member
    cases part with
    | template kept => exact ⟨kept, part_member⟩
    | script kept => cases found
    | style kept => cases found
    | other => cases found
  · rintro ⟨block, member⟩
    exact List.ne_nil_of_mem (List.mem_filterMap.mpr ⟨_, member, rfl⟩)

/-- A file with no template is left as it is. -/
theorem annotate_of_no_template {source : String} {file : ComponentFile}
    (found : read source = .ok file) (missing : file.template = none) (helperImport : String) :
    annotate source helperImport = .ok none := by
  obtain ⟨template, setup, script, style⟩ := file
  cases missing
  rw [annotate, found]
  split
  · rfl
  · rfl

/-- A file has a template exactly if the content of some block with the tag name of a template is
closed, which it is when the templates in it are. A block whose content is not closed is passed
over, and a file with no other one is left as it is. -/
theorem template_isSome_iff {source : String} {file : ComponentFile} (found : read source = .ok file) :
    ∃ parts, Reads (Text.byteLength source.toList) source.toList parts ∧
      file = ofSections (parts.map Prod.snd) ∧
      (file.template.isSome ↔ ∃ part attributes inside,
        OpensTemplate parts part attributes inside ∧ (contentEnd inside).val ≠ []) ∧
      (∀ part attributes inside, OpensTemplate parts part attributes inside →
        ((contentEnd inside).val ≠ [] ∧
          ∃ content openEnd, part = .template ⟨attributes, content, openEnd⟩) ∨
        ((contentEnd inside).val = [] ∧ part = .other ∧
          (upToClosing? templateName inside).isSome)) ∧
      (∀ part attributes content blanks after, Balanced content → (∀ c ∈ blanks, isSpace c) →
        OpensTemplate parts part attributes (content ++ (closingTag templateName blanks ++ after)) →
          ∃ openEnd, part = .template ⟨attributes, String.ofList content, openEnd⟩) ∧
      (file.template = none → ∀ helperImport, annotate source helperImport = .ok none) := by
  obtain ⟨parts, reads, rfl⟩ := read_eq_ok_iff.mp found
  refine ⟨parts, reads, rfl, ?_, fun part attributes inside => section_of_opensTemplate reads,
    fun part attributes content blanks after balanced blank =>
      section_of_balanced reads balanced blank,
    annotate_of_no_template found⟩
  rw [template_ofSections_isSome_iff]
  constructor
  · rintro ⟨block, member⟩
    obtain ⟨⟨start, part⟩, part_member, rfl⟩ := List.mem_map.mp member
    obtain ⟨rest, same⟩ := reads.read? part_member
    obtain ⟨inside, tag⟩ := opening?_of_template same
    have opens : OpensTemplate parts (.template block) block.attributes inside :=
      ⟨start, part_member, tag⟩
    rcases section_of_opensTemplate reads opens with ⟨closed, -⟩ | ⟨-, other, -⟩
    · exact ⟨_, _, _, opens, closed⟩
    · cases other
  · rintro ⟨part, attributes, inside, opens, closed⟩
    obtain ⟨start, member, tag⟩ := opens
    rcases section_of_opensTemplate reads ⟨start, member, tag⟩ with
      ⟨-, content, openEnd, rfl⟩ | ⟨ends, -⟩
    · exact ⟨_, List.mem_map.mpr ⟨_, member, rfl⟩⟩
    · exact absurd ends closed

/-- The first block has no closing tag left, and the second one counts. -/
theorem template_isSome_iff_secondBlock :
    let source := "<template><template></template><template>x</template>"
    ∃ file parts part attributes inside, read source = .ok file ∧
      Reads (Text.byteLength source.toList) source.toList parts ∧ file.template.isSome ∧
      OpensTemplate parts part attributes inside ∧ (contentEnd inside).val ≠ [] := by
  intro source
  have found : read source = .ok ⟨some ⟨[], "x", 41⟩, none, none, none⟩ :=
    eq_ok_of_toOption (by decide +kernel)
  obtain ⟨parts, reads, -, present, -⟩ := template_isSome_iff found
  obtain ⟨part, attributes, inside, opens, closed⟩ := present.mp rfl
  exact ⟨_, parts, part, attributes, inside, found, reads, rfl, opens, closed⟩

/-- A file that begins with the opening tag of a template may be read with no template, although it
has an outlet to be annotated. -/
theorem annotate_unclosedTemplate :
    let source := "<template><slot/><template></template>"
    ∃ file parts part attributes inside, read source = .ok file ∧
      Reads (Text.byteLength source.toList) source.toList parts ∧
      OpensTemplate parts part attributes inside ∧ file.template = none ∧
      hasSlotTag source.toList ∧ annotate source "f" = .ok none := by
  intro source
  have found : read source = .ok empty := eq_ok_of_toOption (by decide +kernel)
  obtain ⟨parts, reads, -⟩ := read_eq_ok_iff.mp found
  have tag : opening? templateName (skipSpace source.toList) =
      some ([], "<slot/><template></template>".toList) := by decide +kernel
  cases reads with
  | done blank =>
      rw [blank] at tag
      cases tag
  | next first more =>
      exact ⟨empty, _, _, _, _, found, .next first more, ⟨_, List.mem_cons_self, tag⟩, rfl,
        by decide +kernel, annotate_of_no_template found rfl "f"⟩

end ComponentFile

end IslandSlots
