import IslandSlots.Proofs.Component.Writing

/-!
# Component files written and read back

A component file is put together from blocks and comments with white space between them. When it
is read, the blocks that count are those that were put in, each with its attributes and its content.
-/

namespace IslandSlots

open BlockTag BlockBody

/-! ## Items -/

/-- What stands at the top level of a component file. -/
inductive TopLevelItem where
  /-- A block. -/
  | block (name : List Char) (attributes : List BlockAttribute) (content : String)
  /-- A comment. -/
  | comment (text : List Char)

/-- The attributes and the content of a block. -/
def Block.written (block : Block) : List BlockAttribute × String :=
  (block.attributes, block.content)

/-- Whether a block with the given attributes is written as a setup script. -/
def isSetup (attributes : List BlockAttribute) : Bool :=
  attributes.any fun attr => attr.name == "setup"

namespace TopLevelItem

/-- An item as it is written. -/
def write : TopLevelItem → List Char
  | block name attributes content =>
    openingTag name attributes ++ (content.toList ++ closingTag name [])
  | comment text => ['<', '!', '-', '-'] ++ text ++ ['-', '-', '>']

theorem write_block_append (name : List Char) (attributes : List BlockAttribute) (content : String)
    (after : List Char) :
    (block name attributes content).write ++ after =
      openingTag name attributes ++ (content.toList ++ (closingTag name [] ++ after)) := by
  simp [write]

/-- The attributes and the content of an item that is a block of the given name. -/
def blockOf? (name : List Char) : TopLevelItem → Option (List BlockAttribute × String)
  | block other attributes content => if name = other then some (attributes, content) else none
  | comment _ => none

/-- An item that does not end before what is written as its end. -/
inductive Plain : TopLevelItem → Prop where
  /-- A template in which the templates are closed. -/
  | template {attributes : List BlockAttribute} {content : String}
      (plain : ∀ attr ∈ attributes, attr.Plain) (balanced : Balanced content.toList) :
      Plain (block templateName attributes content)
  /-- A block of another name with no closing tag in it. -/
  | block {name : List Char} {attributes : List BlockAttribute} {content : String}
      (named : Section.IsTagName name) (other : name ≠ templateName)
      (plain : ∀ attr ∈ attributes, attr.Plain) (goes_on : NeverCloses name content.toList) :
      Plain (block name attributes content)
  /-- A comment. -/
  | comment {text : List Char} (whole : ¬['-', '-', '>'] <:+: text) : Plain (comment text)

open Section

/-- An item is read as a section that holds what was put in. -/
theorem Plain.read? {item : TopLevelItem} (plain : item.Plain) (size : Nat) (after : List Char) :
    ∃ part, Section.read? size (item.write ++ after) = some (part, after) ∧
      ∀ name ∈ keptNames, (part.blockOf? name).map Block.written = item.blockOf? name := by
  cases plain with
  | @template attributes content plain balanced =>
      have opens := opening?_openingTag templateName plain
        (content.toList ++ (closingTag templateName [] ++ after))
      have found := read?_template size opens
      rw [template?_append balanced (List.forall_mem_nil _) after] at found
      rw [write_block_append]
      refine ⟨_, found, fun name _ => ?_⟩
      simp [Section.blockOf?, blockOf?, apply_ite, Block.written]
  | @block name attributes content named other plain goes_on =>
      have solid : '<' ∉ name := fun member => by cases named.named '<' member
      have body := upToClosing?_append solid goes_on after
      have opens := opening?_openingTag name plain (content.toList ++ (closingTag name [] ++ after))
      rw [write_block_append]
      by_cases script : name = scriptName
      · subst script
        refine ⟨_, read?_script size opens body, fun name _ => ?_⟩
        simp [Section.blockOf?, blockOf?, apply_ite, Block.written]
      by_cases style : name = styleName
      · subst style
        refine ⟨_, read?_style size opens body, fun name _ => ?_⟩
        simp [Section.blockOf?, blockOf?, apply_ite, Block.written]
      have passed : name ∉ keptNames := by simp [keptNames, other, script, style]
      refine ⟨_, read?_custom size named passed opens body, fun kept member => ?_⟩
      have apart : kept ≠ name := fun same => passed (same ▸ member)
      simp [Section.blockOf?, blockOf?, apart]
  | @comment text whole =>
      have found := comment?_append whole after
      have unread (foreign : List Char) (member : foreign ∈ keptNames) (content? : ContentReader) :
          block? size foreign content? ((TopLevelItem.comment text).write ++ after) = none := by
        simp only [keptNames, List.mem_cons, List.not_mem_nil, or_false] at member
        rcases member with rfl | rfl | rfl <;> rfl
      refine ⟨.other, ?_, fun name _ => rfl⟩
      rw [Section.read?, Section.template?, unread _ (by simp [keptNames]), Section.script?,
        unread _ (by simp [keptNames]), Section.style?, unread _ (by simp [keptNames])]
      exact congrArg (Option.map (Section.other, ·)) found

theorem exists_write (item : TopLevelItem) : ∃ tail, item.write = '<' :: tail := by
  cases item with
  | block name attributes content => exact ⟨_, rfl⟩
  | comment text => exact ⟨_, rfl⟩

end TopLevelItem

/-! ## Files -/

/-- A component file that is put together from items with white space around them. -/
structure WrittenFile where
  /-- The items, each with the white space before it. -/
  items : List (List Char × TopLevelItem)
  /-- The white space at the end. -/
  trailing : List Char

namespace WrittenFile

open Section

/-- The file as it is written. -/
def write (file : WrittenFile) : List Char :=
  file.items.flatMap (fun (blanks, item) => blanks ++ item.write) ++ file.trailing

/-- The blocks of the given name, each with its attributes and its content. -/
def blocksOf (file : WrittenFile) (name : List Char) : List (List BlockAttribute × String) :=
  file.items.filterMap fun (_, item) => item.blockOf? name

/-- A file whose items can be read back, with at most one block of each kind that counts. -/
structure Plain (file : WrittenFile) : Prop where
  /-- There is white space before the items. -/
  blank : ∀ piece ∈ file.items, ∀ c ∈ piece.1, isSpace c
  /-- The items can be read back. -/
  plain : ∀ piece ∈ file.items, piece.2.Plain
  /-- There is white space at the end. -/
  trailing : ∀ c ∈ file.trailing, isSpace c
  /-- There is at most one template. -/
  template : (file.blocksOf templateName).length ≤ 1
  /-- There is at most one setup script. -/
  setupScript : ((file.blocksOf scriptName).filter fun block => isSetup block.1).length ≤ 1
  /-- There is at most one script besides. -/
  script : ((file.blocksOf scriptName).filter fun block => !isSetup block.1).length ≤ 1
  /-- There is at most one style. -/
  style : (file.blocksOf styleName).length ≤ 1

/-- Items are read one after the other. -/
theorem reads_write (size : Nat) {items : List (List Char × TopLevelItem)} {trailing : List Char}
    (blank : ∀ piece ∈ items, ∀ c ∈ piece.1, isSpace c) (plain : ∀ piece ∈ items, piece.2.Plain)
    (ends : ∀ c ∈ trailing, isSpace c) :
    ∃ parts, Reads size (write ⟨items, trailing⟩) parts ∧ ∀ name ∈ keptNames,
      ((parts.map Prod.snd).filterMap (Section.blockOf? name)).map Block.written =
        blocksOf ⟨items, trailing⟩ name := by
  induction items with
  | nil =>
      have nothing : skipSpace trailing = [] := by
        simpa [skipSpace] using skipSpace_append ends []
      exact ⟨[], .done nothing, fun name _ => rfl⟩
  | cons first items induction =>
      obtain ⟨blanks, item⟩ := first
      obtain ⟨here_blank, later_blank⟩ := List.forall_mem_cons.mp blank
      obtain ⟨here_plain, later_plain⟩ := List.forall_mem_cons.mp plain
      obtain ⟨parts, reads, holds⟩ := induction later_blank later_plain
      obtain ⟨part, read, part_holds⟩ := here_plain.read? size (write ⟨items, trailing⟩)
      obtain ⟨tail, tail_eq⟩ := item.exists_write
      have text_eq : write ⟨(blanks, item) :: items, trailing⟩ =
          blanks ++ (item.write ++ write ⟨items, trailing⟩) := by
        simp [write]
      have spaced : skipSpace (write ⟨(blanks, item) :: items, trailing⟩) =
          item.write ++ write ⟨items, trailing⟩ := by
        rw [text_eq, skipSpace_append here_blank, tail_eq]
        exact skipSpace_cons rfl _
      refine ⟨_, .next (by rw [spaced]; exact read) reads, fun name member => ?_⟩
      have here := part_holds name member
      have later := holds name member
      rw [blocksOf] at later ⊢
      cases found : item.blockOf? name with
      | none =>
          rw [found, Option.map_eq_none_iff] at here
          simp [found, here, ← later]
      | some block =>
          obtain ⟨kept, kept_eq, same⟩ := Option.map_eq_some_iff.mp (here.trans found)
          simp [found, kept_eq, same, ← later]

/-- The one element of a list, taken from the front and changed. -/
theorem toList_head?_map {α β : Type} {change : α → β} {found : List α} {once : List β}
    (same : found.map change = once) (bound : once.length ≤ 1) :
    found.head?.toList.map change = once := by
  subst same
  match found with
  | [] => rfl
  | [_] => rfl

/-- The one element of a list, taken from the end and changed. -/
theorem toList_getLast?_map {α β : Type} {change : α → β} {found : List α} {once : List β}
    (same : found.map change = once) (bound : once.length ≤ 1) :
    found.getLast?.toList.map change = once := by
  subst same
  match found with
  | [] => rfl
  | [_] => rfl

/-- A component file that is put together is read back: the template, the two scripts and the style
are those that were put in, each with its attributes and its content. -/
theorem read_write {file : WrittenFile} (plain : file.Plain) :
    ∃ found, ComponentFile.read (String.ofList file.write) = .ok found ∧
      found.template.toList.map Block.written = file.blocksOf templateName ∧
      found.setupScript.toList.map Block.written =
        (file.blocksOf scriptName).filter (fun block => isSetup block.1) ∧
      found.script.toList.map Block.written =
        (file.blocksOf scriptName).filter (fun block => !isSetup block.1) ∧
      found.style.toList.map Block.written = file.blocksOf styleName := by
  obtain ⟨parts, reads, holds⟩ :=
    reads_write (Text.byteLength file.write) plain.blank plain.plain plain.trailing
  refine ⟨_, ComponentFile.read_eq_ok_iff.mpr ⟨parts, by simpa using reads, rfl⟩, ?_⟩
  have templates := holds templateName (by simp [keptNames])
  have scripts := holds scriptName (by simp [keptNames])
  have styles := holds styleName (by simp [keptNames])
  have setups : (((parts.map Prod.snd).filterMap (Section.blockOf? scriptName)).filter
      (·.has "setup")).map Block.written =
        (file.blocksOf scriptName).filter fun block => isSetup block.1 := by
    rw [← scripts, List.filter_map]
    rfl
  have others : (((parts.map Prod.snd).filterMap (Section.blockOf? scriptName)).filter
      (!·.has "setup")).map Block.written =
        (file.blocksOf scriptName).filter fun block => !isSetup block.1 := by
    rw [← scripts, List.filter_map]
    rfl
  rw [ComponentFile.ofSections_eq]
  exact ⟨toList_head?_map templates plain.template, toList_getLast?_map setups plain.setupScript,
    toList_getLast?_map others plain.script, toList_head?_map styles plain.style⟩

/-- A file with a comment and a block of each kind, out of order and with no line of its own for
some of them. -/
def everyItem : WrittenFile where
  items := [
    ([], .comment " a > b ".toList),
    (['\n'], .block scriptName [⟨"lang", some "ts"⟩] "export default {}"),
    ([], .block "i18n".toList [] "<template>"),
    (['\n'], .block templateName [⟨"v-if", none⟩]
      "<!-- </template> -->a<template #b=\"/>\"><template/>d</template ><p>"),
    (['\n', ' '], .block scriptName [⟨"setup", none⟩] "if (a </style> b) \x7b\x7d"),
    ([], .block styleName [] "")]
  trailing := ['\n']

theorem balanced_everyItem :
    Balanced "<!-- </template> -->a<template #b=\"/>\"><template/>d</template ><p>".toList := by
  have name_parts : TagParts ['>'] (" #b=".toList ++ '"' :: ("/>".toList ++ '"' :: [])) :=
    .text (by simp) (.quoted (.inl rfl) (by decide) .done)
  have tag : TagRest ['>'] " #b=\"/>\"".toList := ⟨by simp [isSpace], name_parts⟩
  have letter : Balanced (['d'] ++ []) := .text (by decide) .nil
  have inner : Balanced "<template/>d".toList := .whole ⟨by simp, .done⟩ letter
  have name : Balanced ("p>".toList ++ []) := .text (by decide) .nil
  have element : Balanced "<p>".toList := .bracket (by decide) name
  have nested : Balanced ('<' :: (templateName ++ " #b=\"/>\"".toList ++ ['>'] ++
      ("<template/>d".toList ++ (closingTag templateName [' '] ++ "<p>".toList)))) :=
    .nested tag inner (List.all_eq_true.mp rfl) element
  have behind : Balanced (['a'] ++ "<template #b=\"/>\"><template/>d</template ><p>".toList) :=
    .text (by decide) nested
  have whole : ¬['-', '-', '>'] <:+: " </template> ".toList := by decide
  exact .comment whole behind

theorem plain_everyItem : everyItem.Plain where
  blank := by simp [everyItem, isSpace]
  plain := by
    have custom_name : IsTagName "i18n".toList := ⟨rfl, List.all_eq_true.mp rfl⟩
    have lang : ∀ attr ∈ [BlockAttribute.mk "lang" (some "ts")], attr.Plain :=
      List.forall_mem_singleton.mpr ⟨by simp, List.all_eq_true.mp rfl, by simp⟩
    have condition : ∀ attr ∈ [BlockAttribute.mk "v-if" none], attr.Plain :=
      List.forall_mem_singleton.mpr ⟨by simp, List.all_eq_true.mp rfl, by simp⟩
    have setup : ∀ attr ∈ [BlockAttribute.mk "setup" none], attr.Plain :=
      List.forall_mem_singleton.mpr ⟨by simp, List.all_eq_true.mp rfl, by simp⟩
    have bare : ∀ attr ∈ ([] : List BlockAttribute), attr.Plain := List.forall_mem_nil _
    simp only [everyItem, List.forall_mem_cons]
    exact ⟨.comment (by decide),
      .block isTagName_scriptName (by decide) lang (neverCloses_of_nowhere (by decide)),
      .block custom_name (by decide) bare (neverCloses_of_nowhere (by decide)),
      .template condition balanced_everyItem,
      .block isTagName_scriptName (by decide) setup (neverCloses_of_nowhere (by decide)),
      .block isTagName_styleName (by decide) bare (neverCloses_of_nowhere (by decide)),
      List.forall_mem_nil _⟩
  trailing := List.all_eq_true.mp rfl
  template := by decide
  setupScript := by decide
  script := by decide
  style := by decide

theorem read_write_everyItem :
    everyItem.Plain ∧ ∃ found, ComponentFile.read (String.ofList everyItem.write) = .ok found ∧
      found.template.toList.map Block.written = everyItem.blocksOf templateName ∧
      found.setupScript.toList.map Block.written =
        (everyItem.blocksOf scriptName).filter (fun block => isSetup block.1) ∧
      found.script.toList.map Block.written =
        (everyItem.blocksOf scriptName).filter (fun block => !isSetup block.1) ∧
      found.style.toList.map Block.written = everyItem.blocksOf styleName :=
  ⟨plain_everyItem, read_write plain_everyItem⟩

end WrittenFile

end IslandSlots
