import IslandSlots.Component.File
import IslandSlots.Proofs.Outcome
import IslandSlots.Proofs.Text.Utf8
import Mathlib.Data.List.Pairwise

/-!
# Where the blocks of a component file stand

The sections of a file follow one another, each with its opening tag, its content and its closing
tag. So the content of a block is a stretch of the file at the place that the block names, and the
contents of two blocks have tags between them.
-/

namespace IslandSlots

/-! ## Suffixes of what is read -/

namespace BlockTag

theorem suffix_of_quoted? {text value rest : List Char} (found : quoted? text = some (value, rest)) :
    rest <:+ text := by
  simp only [quoted?] at found
  split at found
  · exact (Text.suffix_of_splitFirst? found).trans (List.suffix_cons _ _)
  · exact (Text.suffix_of_splitFirst? found).trans (List.suffix_cons _ _)
  · cases found

theorem skipSpace_suffix (text : List Char) : skipSpace text <:+ text :=
  List.dropWhile_suffix _

theorem suffix_of_value? {text value rest : List Char} (found : value? text = some (value, rest)) :
    rest <:+ text := by
  simp only [value?, valuePlace?, Option.bind_eq_bind, Option.bind_eq_some_iff,
    Option.map_eq_some_iff] at found
  obtain ⟨_, ⟨place, place_eq, rfl⟩, quote⟩ := found
  exact ((suffix_of_quoted? quote).trans (skipSpace_suffix place)).trans
    ((Text.suffix_of_after? place_eq).trans (skipSpace_suffix text))

theorem suffix_of_attribute? {text rest : List Char} {attr : BlockAttribute}
    (found : attribute? text = some (attr, rest)) : rest <:+ text := by
  cases text with
  | nil => cases found
  | cons c text =>
      have behind : (skipSpace text).dropWhile isNameChar <:+ c :: text :=
        ((List.dropWhile_suffix _).trans (skipSpace_suffix text)).trans (List.suffix_cons c text)
      simp only [attribute?] at found
      split at found
      · cases found
      · split at found
        · rename_i value_eq
          cases found
          exact (suffix_of_value? value_eq).trans behind
        · cases found
          exact behind

theorem attributes_suffix (text : List Char) : (attributes text).2 <:+ text := by
  fun_induction attributes text with
  | case1 text attr rest found induction => exact induction.trans (suffix_of_attribute? found)
  | case2 text => exact List.suffix_refl text

theorem suffix_of_opening? {name text rest : List Char} {found : List BlockAttribute}
    (opens : opening? name text = some (found, rest)) : rest <:+ text := by
  simp only [opening?, Option.pure_def, Option.bind_eq_bind, Option.bind_eq_some_iff,
    Option.some.injEq, Prod.mk.injEq] at opens
  obtain ⟨behind, starts, inside, ends, -, rfl⟩ := opens
  exact ((Text.suffix_of_after? ends).trans (skipSpace_suffix _)).trans
    ((attributes_suffix behind).trans (Text.suffix_of_after? starts))

theorem suffix_of_closing? {name text rest : List Char} (closes : closing? name text = some rest) :
    rest <:+ text := by
  simp only [closing?, Option.bind_eq_bind, Option.bind_eq_some_iff] at closes
  obtain ⟨behind, starts, ends⟩ := closes
  exact (Text.suffix_of_after? ends).trans ((skipSpace_suffix _).trans (Text.suffix_of_after? starts))

end BlockTag

namespace BlockBody

open BlockTag

theorem suffix_of_comment? {text rest : List Char} (found : comment? text = some rest) :
    rest <:+ text := by
  simp only [comment?, Option.pure_def, Option.bind_eq_bind, Option.bind_eq_some_iff,
    Option.some.injEq] at found
  obtain ⟨inside, opens, ⟨body, after⟩, ends, rfl⟩ := found
  exact (Text.suffix_of_splitFirst? ends).trans (Text.suffix_of_after? opens)

theorem tagEnd_suffix (text : List Char) : tagEnd text <:+ text := by
  fun_induction tagEnd text with
  | case1 => exact List.suffix_refl []
  | case2 c text _ rest found induction => exact induction.trans (suffix_of_quoted? found)
  | case3 => exact List.suffix_refl _
  | case4 c text _ _ induction => exact induction.trans (List.suffix_cons c text)

theorem suffix_of_nestedTag? {text : List Char} {tag : NestedTag}
    (found : nestedTag? text = some tag) : tag.behind <:+ text := by
  simp only [nestedTag?, Option.bind_eq_bind, Option.bind_eq_some_iff] at found
  obtain ⟨behind, starts, found⟩ := found
  have inside : tagEnd behind <:+ text := (tagEnd_suffix behind).trans (Text.suffix_of_after? starts)
  split at found
  · split at found
    · rename_i rest ends
      cases found
      exact ((List.suffix_cons _ _).trans (List.suffix_cons _ _)).trans (ends ▸ inside)
    · rename_i content ends
      cases found
      exact (List.suffix_cons _ _).trans (ends ▸ inside)
    · cases found
  · cases found

mutual

/-- The content of a template is at the front of the text. -/
theorem contentEnd_suffix (text : List Char) : (contentEnd text).val <:+ text := by
  rw [contentEnd.eq_def]
  cases text with
  | nil => exact List.suffix_refl []
  | cons c tail =>
      simp only
      split
      · rename_i rest shorter found
        exact (contentEnd_suffix rest).trans (suffix_of_passed? found)
      · split
        · exact List.suffix_refl _
        · exact (contentEnd_suffix tail).trans (List.suffix_cons c tail)
termination_by (text.length, 1)

theorem suffix_of_passed? {text : List Char}
    {passed : { rest : List Char // rest.length < text.length }}
    (found : passed? text = some passed) : passed.val <:+ text := by
  rw [passed?.eq_def] at found
  split at found
  · rename_i rest comment
    cases found
    exact suffix_of_comment? comment
  · split at found
    · cases found
    · rename_i rest nested
      cases found
      exact suffix_of_nestedTag? nested
    · rename_i content nested
      have shorter : content.length < text.length := length_of_nestedTag? nested
      simp only at found
      split at found
      · rename_i rest closes
        cases found
        exact (suffix_of_closing? closes).trans
          ((contentEnd_suffix content).trans (suffix_of_nestedTag? nested))
      · cases found
termination_by (text.length, 0)

end

/-- A reader of the content of a block finds it at the front of a text, before what follows the
block. -/
def ReadsContent (content? : List Char → Option (List Char × List Char)) : Prop :=
  ∀ inside content rest, content? inside = some (content, rest) →
    ∃ closing, inside = content ++ closing ++ rest

theorem readsContent_upToClosing? (name : List Char) : ReadsContent (upToClosing? name) := by
  intro inside content rest found
  induction inside generalizing content with
  | nil => cases found
  | cons c text induction =>
      rw [upToClosing?] at found
      split at found
      · rename_i closes
        cases found
        obtain ⟨closing, closing_eq⟩ := suffix_of_closing? closes
        exact ⟨closing, closing_eq.symm⟩
      · obtain ⟨⟨more, behind⟩, inner, same⟩ := Option.map_eq_some_iff.mp found
        cases same
        obtain ⟨closing, rfl⟩ := induction more inner
        exact ⟨closing, rfl⟩

theorem readsContent_template? : ReadsContent BlockBody.template? := by
  intro inside content rest found
  obtain ⟨behind, closes, same⟩ := Option.map_eq_some_iff.mp found
  cases same
  obtain ⟨closing, ending_eq⟩ := suffix_of_closing? closes
  obtain ⟨front, inside_eq⟩ := contentEnd_suffix inside
  generalize (contentEnd inside).val = ending at ending_eq inside_eq
  subst inside_eq ending_eq
  exact ⟨closing, by simp [List.take_left']⟩

end BlockBody

/-! ## Where contents stand -/

/-- The content of a block stands in a text at the place that the block names. -/
def Block.StandsIn (block : Block) (text : List Char) : Prop :=
  ∃ before after, text = before ++ block.content.toList ++ after ∧
    block.openEnd = Text.byteLength before

/-- The place after the content of a block. -/
def Block.stop (block : Block) : Nat :=
  block.openEnd + Text.byteLength block.content.toList

namespace Section

open BlockTag BlockBody

/-- The block that is kept of a section, if it is one of those that are. -/
def kept? : Section → Option Block
  | .template block => some block
  | .script block => some block
  | .style block => some block
  | .other => none

/-- A block that is read stands at the front of the text, behind its opening tag. -/
theorem stands_of_block? {size : Nat} {name before text rest : List Char}
    {content? : ContentReader} {block : Block} (reads : ReadsContent content?)
    (size_eq : size = Text.byteLength (before ++ text))
    (found : block? size name content? text = some (block, rest)) :
    ∃ front, text = front ++ rest ∧ block.StandsIn (before ++ text) ∧
      Text.byteLength before < block.openEnd ∧ block.stop ≤ Text.byteLength (before ++ front) := by
  simp only [block?, Option.pure_def, Option.bind_eq_bind, Option.bind_eq_some_iff,
    Option.some.injEq, Prod.mk.injEq, Prod.exists] at found
  obtain ⟨attributes, inside, opens, content, behind, body, rfl, rfl⟩ := found
  obtain ⟨closing, rfl⟩ := reads _ _ _ body
  obtain ⟨opening, rfl⟩ := suffix_of_opening? opens
  have shorter := length_of_opening? opens
  have filled : 0 < Text.byteLength opening := by
    refine Nat.pos_of_ne_zero fun empty => ?_
    rw [Text.byteLength_eq_zero empty, List.nil_append] at shorter
    exact Nat.lt_irrefl _ shorter
  have place_eq : size - Text.byteLength (content ++ closing ++ behind) =
      Text.byteLength (before ++ opening) := by
    rw [size_eq]
    simp only [Text.byteLength_append]
    omega
  refine ⟨opening ++ content ++ closing, by simp, ⟨before ++ opening, closing ++ behind, ?_, place_eq⟩,
    ?_, ?_⟩
  · simp
  · simp only [Text.byteLength_append] at place_eq ⊢
    omega
  · simp only [Block.stop, String.toList_ofList, Text.byteLength_append] at place_eq ⊢
    omega

theorem suffix_of_custom? {text rest : List Char} (found : custom? text = some rest) :
    rest <:+ text := by
  simp only [custom?] at found
  split at found
  · split at found
    · cases found
    · simp only [Option.pure_def, Option.bind_eq_bind, Option.bind_eq_some_iff, Option.some.injEq,
        Prod.exists] at found
      obtain ⟨_, inside, opens, content, behind, body, rfl⟩ := found
      obtain ⟨closing, rfl⟩ := readsContent_upToClosing? _ _ _ _ body
      exact (List.suffix_append _ _).trans (suffix_of_opening? opens)
  · cases found

/-- The block of a section stands at the front of the text, behind an opening tag. -/
theorem stands_of_read? {size : Nat} (before : List Char) {text rest : List Char} {found : Section}
    (size_eq : size = Text.byteLength (before ++ text))
    (reads : read? size text = some (found, rest)) :
    ∃ front, text = front ++ rest ∧ ∀ block ∈ found.kept?, block.StandsIn (before ++ text) ∧
      Text.byteLength before < block.openEnd ∧ block.stop ≤ Text.byteLength (before ++ front) := by
  have kept {name : List Char} {content? : ContentReader} {block : Block}
      (content : ReadsContent content?)
      (found : block? size name content? text = some (block, rest)) :
      ∃ front, text = front ++ rest ∧ ∀ other ∈ some block, other.StandsIn (before ++ text) ∧
        Text.byteLength before < other.openEnd ∧
          other.stop ≤ Text.byteLength (before ++ front) := by
    obtain ⟨front, text_eq, stands⟩ := stands_of_block? content size_eq found
    exact ⟨front, text_eq, by simpa using stands⟩
  have passed (behind : rest <:+ text) (other : found.kept? = none) :
      ∃ front, text = front ++ rest ∧ ∀ block ∈ found.kept?, block.StandsIn (before ++ text) ∧
        Text.byteLength before < block.openEnd ∧
          block.stop ≤ Text.byteLength (before ++ front) := by
    obtain ⟨front, text_eq⟩ := behind
    exact ⟨front, text_eq.symm, by simp [other]⟩
  simp only [read?] at reads
  split at reads
  · rename_i block
    cases reads
    exact kept readsContent_template? block
  · split at reads
    · rename_i block
      cases reads
      exact kept (readsContent_upToClosing? scriptName) block
    · split at reads
      · rename_i block
        cases reads
        exact kept (readsContent_upToClosing? styleName) block
      · simp only [Option.map_eq_some_iff, Option.or_eq_some_iff, Prod.mk.injEq] at reads
        obtain ⟨_, custom | ⟨-, comment⟩, rfl, rfl⟩ := reads
        · exact passed (suffix_of_custom? custom) rfl
        · exact passed (suffix_of_comment? comment) rfl

/-- The blocks of sections that follow one another stand in the file, and each begins after those
before it have ended. -/
theorem stands_of_all {size : Nat} {lost : Bool} (before : List Char) {text : List Char}
    {sections : List Section} (size_eq : size = Text.byteLength (before ++ text))
    (found : all size lost text = .ok sections) :
    (∀ part ∈ sections, ∀ block ∈ part.kept?, block.StandsIn (before ++ text) ∧
      Text.byteLength before < block.openEnd) ∧
    sections.Pairwise fun first second =>
      ∀ block ∈ first.kept?, ∀ other ∈ second.kept?, block.stop < other.openEnd := by
  fun_induction all size lost text generalizing sections before with
  | case1 lost text first rest reads induction =>
      obtain ⟨blanks, blanks_eq⟩ := skipSpace_suffix text
      obtain ⟨more, more_eq, same⟩ := map_eq_ok.mp found
      cases same
      generalize skipSpace text = spaced at *
      subst blanks_eq
      obtain ⟨front, rfl, stands⟩ :=
        stands_of_read? (before ++ blanks) (by simpa using size_eq) reads
      obtain ⟨later, apart⟩ :=
        induction (before ++ blanks ++ front) (by simpa using size_eq) more_eq
      simp only [List.append_assoc, Text.byteLength_append] at stands later ⊢
      refine ⟨List.forall_mem_cons.mpr ⟨fun block kept => ?_, fun part member block kept => ?_⟩,
        List.pairwise_cons.mpr ⟨fun part member block kept other other_kept => ?_, apart⟩⟩
      · obtain ⟨stands_in, begins, -⟩ := stands block kept
        exact ⟨stands_in, by omega⟩
      · obtain ⟨stands_in, begins⟩ := later part member block kept
        exact ⟨stands_in, by omega⟩
      · obtain ⟨-, -, ends⟩ := stands block kept
        obtain ⟨-, begins⟩ := later part member other other_kept
        omega
  | case2 =>
      cases found
      simp
  | case3 => cases found
  | case4 => cases found

/-- The contents of two sections do not meet. -/
theorem apart_of_all {size : Nat} {lost : Bool} (before : List Char) {text : List Char}
    {sections : List Section} (size_eq : size = Text.byteLength (before ++ text))
    (found : all size lost text = .ok sections) {first second : Section} (member : first ∈ sections)
    (also : second ∈ sections) (different : first ≠ second) :
    ∀ block ∈ first.kept?, ∀ other ∈ second.kept?,
      block.stop < other.openEnd ∨ other.stop < block.openEnd := by
  obtain ⟨-, ordered⟩ := stands_of_all before size_eq found
  have symmetric : Std.Symm fun first second : Section =>
      ∀ block ∈ first.kept?, ∀ other ∈ second.kept?,
        block.stop < other.openEnd ∨ other.stop < block.openEnd :=
    ⟨fun _ _ apart block kept other other_kept => (apart other other_kept block kept).symm⟩
  have disjoint : sections.Pairwise fun first second =>
      ∀ block ∈ first.kept?, ∀ other ∈ second.kept?,
        block.stop < other.openEnd ∨ other.stop < block.openEnd :=
    ordered.imp fun behind block kept other other_kept =>
      .inl (behind block kept other other_kept)
  exact disjoint.forall member also different

end Section

namespace ComponentFile

/-- The template and the scripts of a file are among its sections. -/
structure Drawn (sections : List Section) (file : ComponentFile) : Prop where
  /-- The template is a section. -/
  template : ∀ block ∈ file.template, Section.template block ∈ sections
  /-- The script with the attribute `setup` is a section. -/
  setupScript : ∀ block ∈ file.setupScript, Section.script block ∈ sections
  /-- The script without it is a section. -/
  script : ∀ block ∈ file.script, Section.script block ∈ sections

theorem Drawn.add {sections : List Section} {file : ComponentFile} {part : Section}
    (drawn : file.Drawn sections) (member : part ∈ sections) : (file.add part).Drawn sections := by
  obtain ⟨template_drawn, setup_drawn, script_drawn⟩ := drawn
  cases part with
  | template block =>
      refine ⟨fun found found_eq => ?_, setup_drawn, script_drawn⟩
      rcases Option.or_eq_some_iff.mp found_eq with earlier | ⟨-, here⟩
      · exact template_drawn found earlier
      · rwa [← Option.some.inj here]
  | script block =>
      rw [ComponentFile.add]
      split
      · refine ⟨template_drawn, fun found found_eq => ?_, script_drawn⟩
        rwa [← Option.some.inj found_eq]
      · refine ⟨template_drawn, setup_drawn, fun found found_eq => ?_⟩
        rwa [← Option.some.inj found_eq]
  | style block => exact ⟨template_drawn, setup_drawn, script_drawn⟩
  | other => exact ⟨template_drawn, setup_drawn, script_drawn⟩

theorem drawn_ofSections (sections : List Section) : (ofSections sections).Drawn sections :=
  List.foldlRecOn sections add ⟨by simp [empty], by simp [empty], by simp [empty]⟩
    fun _ drawn _ member => drawn.add member

theorem Drawn.firstScript? {sections : List Section} {file : ComponentFile}
    (drawn : file.Drawn sections) :
    ∀ block ∈ file.firstScript?, Section.script block ∈ sections := by
  intro block found
  rw [ComponentFile.firstScript?] at found
  split at found
  · rename_i script setup script_eq setup_eq
    cases found
    split
    · exact drawn.script script script_eq
    · exact drawn.setupScript setup setup_eq
  · rcases Option.or_eq_some_iff.mp found with here | ⟨-, here⟩
    · exact drawn.script block here
    · exact drawn.setupScript block here

theorem exists_sections {source : String} {file : ComponentFile} (found : read source = .ok file) :
    ∃ sections, Section.ofText source.toList = .ok sections ∧ file.Drawn sections := by
  rw [read] at found
  split at found
  · rename_i sections sections_eq
    cases found
    exact ⟨sections, sections_eq, drawn_ofSections sections⟩
  · cases found

/-- The template and the first script stand in the file, one behind the other. -/
theorem apart_of_read {source : String} {file : ComponentFile} {template script : Block}
    (found : read source = .ok file) (template_eq : file.template = some template)
    (script_eq : file.firstScript? = some script) :
    script.stop < template.openEnd ∨ template.stop < script.openEnd := by
  obtain ⟨sections, sections_eq, drawn⟩ := exists_sections found
  exact Section.apart_of_all [] rfl sections_eq (drawn.firstScript? script script_eq)
    (drawn.template template template_eq) (by simp) script rfl template rfl

theorem standsIn_of_read {source : String} {file : ComponentFile} {block : Block}
    (found : read source = .ok file)
    (counts : file.template = some block ∨ file.firstScript? = some block) :
    block.StandsIn source.toList := by
  obtain ⟨sections, sections_eq, drawn⟩ := exists_sections found
  obtain ⟨stands, -⟩ := Section.stands_of_all [] rfl sections_eq
  rcases counts with template | script
  · exact (stands _ (drawn.template block template) block rfl).1
  · exact (stands _ (drawn.firstScript? block script) block rfl).1

end ComponentFile

end IslandSlots
