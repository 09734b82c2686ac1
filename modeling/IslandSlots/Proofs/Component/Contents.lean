import IslandSlots.Proofs.Component.Blocks
import IslandSlots.Proofs.Component.Unclosed
import Mathlib.Data.List.Nodup

/-!
# Contents between their tags

Every block that counts stands in its file from the `>` of its opening tag to its closing tag, at
the byte that it names. The content of a script or a style goes up to the first closing tag of its
name, and no two contents meet.
-/

namespace IslandSlots

open BlockTag BlockBody

/-! ## Readers of contents -/

namespace BlockTag

/-- What is read as an opening tag is one. -/
theorem exists_openingTag {name text rest : List Char} {found : List BlockAttribute}
    (opens : opening? name text = some (found, rest)) :
    ∃ inside, text = '<' :: (name ++ inside ++ '>' :: rest) := by
  obtain ⟨behind, starts, ends⟩ := Option.bind_eq_some_iff.mp opens
  obtain ⟨after, closes, same⟩ := Option.bind_eq_some_iff.mp ends
  obtain ⟨-, rfl⟩ := Prod.mk.inj (Option.some.inj same)
  obtain ⟨passed, passed_eq⟩ := attributes_suffix behind
  obtain ⟨blanks, blanks_eq⟩ := skipSpace_suffix (attributes behind).2
  refine ⟨passed ++ blanks, ?_⟩
  rw [Text.eq_of_after? starts, ← passed_eq, ← blanks_eq, Text.eq_of_after? closes]
  simp

end BlockTag

namespace BlockBody

/-- The content of a block other than a template goes up to the first closing tag of its name. -/
theorem exists_closingTag_of_upToClosing? {name inside content rest : List Char}
    (found : upToClosing? name inside = some (content, rest)) :
    NeverCloses name content ∧ ∃ blanks, (∀ c ∈ blanks, isSpace c) ∧
      inside = content ++ (closingTag name blanks ++ rest) := by
  induction inside generalizing content with
  | nil => cases found
  | cons c text induction =>
      rw [upToClosing?] at found
      split at found
      · rename_i closes
        cases found
        refine ⟨fun blanks _ stands => ?_, closing?_eq_some_iff.mp closes⟩
        cases List.infix_nil.mp stands
      · rename_i goes_on
        obtain ⟨⟨more, behind⟩, inner, same⟩ := Option.map_eq_some_iff.mp found
        cases same
        obtain ⟨never, blanks, blank, rfl⟩ := induction inner
        refine ⟨fun others other_blank stands => ?_, blanks, blank, rfl⟩
        rcases List.infix_cons_iff.mp stands with ⟨after, begins⟩ | later
        · -- A closing tag at the front would have been read.
          have closes : closing? name
              (closingTag name others ++ (after ++ (closingTag name blanks ++ rest))) =
                some (after ++ (closingTag name blanks ++ rest)) :=
            closing?_eq_some_iff.mpr ⟨others, other_blank, rfl⟩
          rw [← List.cons_append, ← begins, List.append_assoc, closes] at goes_on
          cases goes_on
        · exact never others other_blank later

/-- So does that of a template, but for the closing tags that templates inside it take. -/
theorem exists_closingTag_of_template? {inside content rest : List Char}
    (found : BlockBody.template? inside = some (content, rest)) :
    ∃ blanks, (∀ c ∈ blanks, isSpace c) ∧
      inside = content ++ (closingTag templateName blanks ++ rest) := by
  obtain ⟨behind, closes, same⟩ := Option.map_eq_some_iff.mp found
  cases same
  obtain ⟨blanks, blank, ending_eq⟩ := closing?_eq_some_iff.mp closes
  obtain ⟨front, inside_eq⟩ := contentEnd_suffix inside
  refine ⟨blanks, blank, ?_⟩
  rw [← ending_eq]
  generalize (contentEnd inside).val = ending at inside_eq
  subst inside_eq
  simp [List.take_left']

end BlockBody

/-! ## Blocks that count -/

/-- A block of the given name stands in a text between the tags that are written out here. -/
structure Block.StandsBetween (block : Block) (name text before inside blanks after : List Char) :
    Prop where
  /-- The content has the opening tag in front of it and the closing tag behind it. -/
  whole : text = before ++ ('<' :: (name ++ inside ++ ['>'])) ++
    (block.content.toList ++ (closingTag name blanks ++ after))
  /-- It stands at the place that the block names. -/
  place : block.openEnd = Text.byteLength (before ++ ('<' :: (name ++ inside ++ ['>'])))
  /-- The attributes are those of the opening tag. -/
  attributes : (opening? name ('<' :: (name ++ inside ++ ['>']) ++
    (block.content.toList ++ (closingTag name blanks ++ after)))).map Prod.fst = some block.attributes
  /-- The closing tag has nothing but white space behind the name. -/
  blank : ∀ c ∈ blanks, isSpace c

/-- Where a block stands between its tags, the byte before its place is the end of the opening tag,
and its bytes begin there. -/
theorem Block.StandsBetween.bytes_eq {block : Block} {source : String}
    {name before inside blanks after : List Char}
    (stands : block.StandsBetween name source.toList before inside blanks after) :
    block.openEnd = (Text.encode (before ++ '<' :: (name ++ inside))).length + 1 ∧
      Text.bytes source = Text.encode (before ++ '<' :: (name ++ inside)) ++
        Text.charByte '>' :: (Text.bytes block.content ++
          (Text.encode (closingTag name blanks) ++ Text.encode after)) := by
  have opening_eq : before ++ ('<' :: (name ++ inside ++ ['>'])) =
      (before ++ '<' :: (name ++ inside)) ++ ['>'] := by
    simp
  constructor
  · rw [stands.place, opening_eq, Text.byteLength_append, Text.length_encode]
    rfl
  · rw [Text.bytes, stands.whole, opening_eq]
    simp only [Text.encode_append, Text.bytes, List.append_assoc]
    rfl

namespace Section

/-- A block that is read stands between its tags. -/
theorem standsBetween_of_block? {size : Nat} {name before text rest : List Char}
    {content? : ContentReader} {block : Block}
    (reads : ∀ inside content rest, content? inside = some (content, rest) →
      ∃ blanks, (∀ c ∈ blanks, isSpace c) ∧ inside = content ++ (closingTag name blanks ++ rest))
    (size_eq : size = Text.byteLength (before ++ text))
    (found : block? size name content? text = some (block, rest)) :
    ∃ inside blanks after, block.StandsBetween name (before ++ text) before inside blanks after := by
  obtain ⟨⟨attributes, inner⟩, opens, found⟩ := Option.bind_eq_some_iff.mp found
  obtain ⟨⟨content, behind⟩, body, same⟩ := Option.bind_eq_some_iff.mp found
  cases same
  obtain ⟨inside, text_eq⟩ := exists_openingTag opens
  obtain ⟨blanks, blank, rfl⟩ := reads _ _ _ body
  have whole : text = '<' :: (name ++ inside ++ ['>']) ++
      (content ++ (closingTag name blanks ++ rest)) := by
    simp [text_eq]
  refine ⟨inside, blanks, rest, ?_, ?_, ?_, blank⟩
  · rw [String.toList_ofList, whole]
    simp
  · rw [size_eq, whole]
    simp only [Text.byteLength_append]
    omega
  · rw [String.toList_ofList, ← whole, opens]
    rfl

/-- The block of a section that counts under a name is the one that is kept of it. -/
theorem kept?_of_blockOf? {part : Section} {name : List Char} {block : Block}
    (counts : part.blockOf? name = some block) :
    part.kept? = some block ∧
      (part = .template block ∧ name = templateName ∨ part = .script block ∧ name = scriptName ∨
        part = .style block ∧ name = styleName) := by
  cases part <;> simp_all [blockOf?, kept?]

/-- A section counts under one name with one block. -/
theorem blockOf?_unique {part : Section} {name other : List Char} {block another : Block}
    (counts : part.blockOf? name = some block) (also : part.blockOf? other = some another) :
    (name, block) = (other, another) := by
  obtain ⟨kept, kinds⟩ := kept?_of_blockOf? counts
  obtain ⟨kept', kinds'⟩ := kept?_of_blockOf? also
  obtain rfl := Option.some.inj (kept.symm.trans kept')
  rcases kinds with ⟨rfl, rfl⟩ | ⟨rfl, rfl⟩ | ⟨rfl, rfl⟩ <;> simp_all

/-- The block of a section stands between its tags, and a script or a style has no closing tag in
it. -/
theorem standsBetween_of_read? {size : Nat} {name before text rest : List Char} {found : Section}
    {block : Block} (size_eq : size = Text.byteLength (before ++ text))
    (reads : read? size text = some (found, rest)) (counts : found.blockOf? name = some block) :
    (∃ inside blanks after, block.StandsBetween name (before ++ text) before inside blanks after) ∧
      (name ≠ templateName → NeverCloses name block.content.toList) := by
  have upTo (other : List Char) : ∀ inside content rest,
      upToClosing? other inside = some (content, rest) → ∃ blanks, (∀ c ∈ blanks, isSpace c) ∧
        inside = content ++ (closingTag other blanks ++ rest) :=
    fun _ _ _ found => (exists_closingTag_of_upToClosing? found).2
  have never {other : List Char} {block : Block}
      (read : block? size other (upToClosing? other) text = some (block, rest)) :
      NeverCloses other block.content.toList := by
    obtain ⟨⟨attributes, inside⟩, -, read⟩ := Option.bind_eq_some_iff.mp read
    obtain ⟨⟨content, behind⟩, body, same⟩ := Option.bind_eq_some_iff.mp read
    cases same
    exact String.toList_ofList ▸ (exists_closingTag_of_upToClosing? body).1
  obtain ⟨-, kinds⟩ := kept?_of_blockOf? counts
  rw [read?] at reads
  split at reads
  · rename_i kept read
    cases reads
    obtain ⟨same, rfl⟩ | ⟨other, -⟩ | ⟨other, -⟩ := kinds
    · cases same
      exact ⟨standsBetween_of_block? (fun _ _ _ => exists_closingTag_of_template?) size_eq read,
        fun other => absurd rfl other⟩
    · cases other
    · cases other
  · split at reads
    · rename_i kept read
      cases reads
      obtain ⟨other, -⟩ | ⟨same, rfl⟩ | ⟨other, -⟩ := kinds
      · cases other
      · cases same
        exact ⟨standsBetween_of_block? (upTo scriptName) size_eq read, fun _ => never read⟩
      · cases other
    · split at reads
      · rename_i kept read
        cases reads
        obtain ⟨other, -⟩ | ⟨other, -⟩ | ⟨same, rfl⟩ := kinds
        · cases other
        · cases other
        · cases same
          exact ⟨standsBetween_of_block? (upTo styleName) size_eq read, fun _ => never read⟩
      · obtain ⟨behind, -, same⟩ := Option.map_eq_some_iff.mp reads
        cases same
        cases counts

/-- Every section begins somewhere in the text. -/
theorem Reads.suffix {size : Nat} (before : List Char) {text : List Char}
    {parts : List (List Char × Section)} (size_eq : size = Text.byteLength (before ++ text))
    (reads : Reads size text parts) {start : List Char} {part : Section}
    (member : (start, part) ∈ parts) : start <:+ text := by
  induction reads generalizing before with
  | done => cases member
  | @next text rest first others found more induction =>
      obtain ⟨blanks, text_eq, -⟩ := exists_blanks text
      have here : skipSpace text <:+ text := ⟨blanks, text_eq.symm⟩
      rcases List.mem_cons.mp member with same | later
      · cases same
        exact here
      · rw [text_eq, ← List.append_assoc] at size_eq
        obtain ⟨front, rest_eq, -⟩ := stands_of_read? (before ++ blanks) size_eq found
        have behind := induction (before ++ blanks ++ front)
          (by rw [size_eq, rest_eq, List.append_assoc _ front]) later
        exact (behind.trans ⟨front, rest_eq.symm⟩).trans here

end Section

namespace ComponentFile

open Section

/-- The blocks of a file that count, each with the name of its tags. -/
def blocks (file : ComponentFile) : List (List Char × Block) :=
  file.template.toList.map (templateName, ·) ++ file.setupScript.toList.map (scriptName, ·) ++
    file.script.toList.map (scriptName, ·) ++ file.style.toList.map (styleName, ·)

/-- A block that counts is one of a section. -/
theorem exists_section_of_mem_blocks {sections : List Section} {name : List Char} {block : Block}
    (member : (name, block) ∈ (ofSections sections).blocks) :
    ∃ part ∈ sections, part.blockOf? name = some block := by
  rw [ofSections_eq] at member
  simp only [blocks, List.mem_append, List.mem_map, Option.mem_toList, Prod.mk.injEq] at member
  rcases member with ((⟨_, found, rfl, rfl⟩ | ⟨_, found, rfl, rfl⟩) | ⟨_, found, rfl, rfl⟩) |
    ⟨_, found, rfl, rfl⟩
  · exact List.mem_filterMap.mp (List.mem_of_head? found)
  · exact List.mem_filterMap.mp (List.mem_of_mem_filter (List.mem_of_getLast? found))
  · exact List.mem_filterMap.mp (List.mem_of_mem_filter (List.mem_of_getLast? found))
  · exact List.mem_filterMap.mp (List.mem_of_head? found)

/-- A script with the attribute `setup` and one without it are no single block. -/
theorem setupScript_ne_script {sections : List Section} {setup plain : Block}
    (setup_eq : (ofSections sections).setupScript = some setup)
    (plain_eq : (ofSections sections).script = some plain) : setup ≠ plain := by
  rw [ofSections_eq] at setup_eq plain_eq
  rintro rfl
  have has := (List.mem_filter.mp (List.mem_of_getLast? setup_eq)).2
  have lacks := (List.mem_filter.mp (List.mem_of_getLast? plain_eq)).2
  rw [has] at lacks
  cases lacks

/-- No block counts twice. -/
theorem nodup_blocks {file : ComponentFile}
    (apart : ∀ setup ∈ file.setupScript, ∀ plain ∈ file.script, setup ≠ plain) :
    file.blocks.Nodup := by
  have names : templateName ≠ scriptName ∧ templateName ≠ styleName ∧ scriptName ≠ styleName := by
    decide
  obtain ⟨template, setup, plain, style⟩ := file
  cases template <;> cases setup <;> cases plain <;> cases style <;> simp_all [blocks]

/-- Every block that counts stands between its tags at the place that it names, a script or a style
has no closing tag of its name in it, and no two contents meet. -/
theorem blocks_stand {source : String} {file : ComponentFile} (found : read source = .ok file) :
    (∀ name block, (name, block) ∈ file.blocks →
      (∃ before inside blanks after,
        block.StandsBetween name source.toList before inside blanks after) ∧
      (∃ front blanks back, (∀ c ∈ blanks, isSpace c) ∧ block.openEnd = front.length + 1 ∧
        Text.bytes source = front ++ Text.charByte '>' :: (Text.bytes block.content ++
          (Text.encode (closingTag name blanks) ++ back))) ∧
      (name ≠ templateName → NeverCloses name block.content.toList)) ∧
    file.blocks.Pairwise fun first second =>
      first.2.stop < second.2.openEnd ∨ second.2.stop < first.2.openEnd := by
  obtain ⟨parts, reads, rfl⟩ := read_eq_ok_iff.mp found
  have all_eq : Section.all (Text.byteLength source.toList) false source.toList =
      .ok (parts.map Prod.snd) := all_eq_ok_iff.mpr ⟨parts, reads, rfl⟩
  constructor
  · intro name block member
    obtain ⟨part, part_member, counts⟩ := exists_section_of_mem_blocks member
    obtain ⟨⟨start, part⟩, piece, rfl⟩ := List.mem_map.mp part_member
    obtain ⟨rest, read⟩ := reads.read? piece
    obtain ⟨before, split⟩ := Reads.suffix [] rfl reads piece
    obtain ⟨⟨inside, blanks, after, stands⟩, never⟩ :=
      standsBetween_of_read? (congrArg Text.byteLength split.symm) read counts
    rw [split] at stands
    exact ⟨⟨before, inside, blanks, after, stands⟩, ⟨_, blanks, _, stands.blank, stands.bytes_eq⟩,
      never⟩
  · refine (nodup_blocks ?_).pairwise_of_forall_ne ?_
    · exact fun setup setup_eq plain plain_eq => setupScript_ne_script setup_eq plain_eq
    · rintro ⟨name, block⟩ member ⟨other, another⟩ also different
      obtain ⟨first, first_member, counts⟩ := exists_section_of_mem_blocks member
      obtain ⟨second, second_member, also_counts⟩ := exists_section_of_mem_blocks also
      have sections_differ : first ≠ second := by
        rintro rfl
        exact different (blockOf?_unique counts also_counts)
      exact apart_of_all [] rfl all_eq first_member second_member sections_differ block
        (kept?_of_blockOf? counts).1 another (kept?_of_blockOf? also_counts).1

/-- A quoted `>`, a template in a template and characters of several bytes change no places. -/
theorem blocks_stand_nested :
    let source :=
      "<template a=\"é>\">é<template>b</template></template >\n<script setup>1</script>" ++
        "<script>\"</style>\"</script><style>c</style>"
    let file : ComponentFile :=
      { template := some ⟨[⟨"a", some "é>"⟩], "é<template>b</template>", 18⟩
        setupScript := some ⟨[⟨"setup", none⟩], "1", 69⟩
        script := some ⟨[], "\"</style>\"", 87⟩
        style := some ⟨[], "c", 113⟩ }
    read source = .ok file ∧
      (∃ front blanks back, (∀ c ∈ blanks, isSpace c) ∧ 18 = front.length + 1 ∧
        Text.bytes source = front ++ Text.charByte '>' :: (Text.bytes "é<template>b</template>" ++
          (Text.encode (closingTag templateName blanks) ++ back))) ∧
      NeverCloses scriptName ['"', '<', '/', 's', 't', 'y', 'l', 'e', '>', '"'] ∧
      file.blocks.Pairwise fun first second =>
        first.2.stop < second.2.openEnd ∨ second.2.stop < first.2.openEnd := by
  intro source file
  have found : read source = .ok file := eq_ok_of_toOption (by decide +kernel)
  obtain ⟨stand, apart⟩ := blocks_stand found
  obtain ⟨-, template, -⟩ := stand templateName _ List.mem_cons_self
  obtain ⟨-, -, never⟩ := stand scriptName ⟨[], "\"</style>\"", 87⟩ (by decide)
  exact ⟨found, template, never (by decide), apart⟩

end ComponentFile

end IslandSlots
