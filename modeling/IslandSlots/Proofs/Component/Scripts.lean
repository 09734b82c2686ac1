import IslandSlots.Proofs.Component.Contents
import IslandSlots.Proofs.Slot.Annotation

/-!
# The first script of a file

A file keeps the last script with the attribute `setup` and the last one without it, and the loop
helper is imported into the one of the two that comes first. That is the first script of the file if
no other one of its kind follows; where one does, the import goes into a later script.
-/

namespace IslandSlots

open Section

/-- Two scripts are of one kind if both have the attribute `setup` or both lack it. -/
def Block.SameKind (block other : Block) : Prop :=
  block.has "setup" = other.has "setup"

/-- The content of a block begins before that of another one. -/
def Block.Precedes (block other : Block) : Prop :=
  block.openEnd < other.openEnd

/-- The script blocks among sections, in order. -/
def Section.scripts (sections : List Section) : List Block :=
  sections.filterMap (blockOf? scriptName)

/-- A script comes first among the last scripts of the two kinds: no other one of its kind follows,
and if there are scripts of the other kind, then one of them does. -/
def Section.IsFirstOfLast (blocks : List Block) (block : Block) : Prop :=
  ∃ front back, blocks = front ++ block :: back ∧ (∀ other ∈ back, ¬other.SameKind block) ∧
    (back ≠ [] ∨ ∀ other ∈ front, other.SameKind block)

namespace Section

/-- Among scripts there is one that comes first among the last ones of the two kinds. -/
theorem exists_isFirstOfLast {blocks : List Block} (filled : blocks ≠ []) :
    ∃ block, IsFirstOfLast blocks block := by
  induction blocks with
  | nil => exact absurd rfl filled
  | cons first blocks induction =>
      by_cases last : blocks = []
      · subst last
        exact ⟨first, [], [], rfl, List.forall_mem_nil _, .inr (List.forall_mem_nil _)⟩
      obtain ⟨block, front, back, rfl, behind, follows⟩ := induction last
      by_cases same : first.SameKind block
      · refine ⟨block, first :: front, back, rfl, behind, ?_⟩
        exact follows.imp_right fun before => List.forall_mem_cons.mpr ⟨same, before⟩
      by_cases ends : back = []
      · -- All scripts behind the first one are of the other kind.
        subst ends
        have before := follows.resolve_left fun other => other rfl
        refine ⟨first, [], _, rfl, ?_, .inl last⟩
        simp only [List.forall_mem_append, List.forall_mem_cons]
        refine ⟨fun other member kind => ?_, fun kind => same kind.symm, List.forall_mem_nil _⟩
        exact same (kind.symm.trans (before other member))
      · exact ⟨block, first :: front, back, rfl, behind, .inl ends⟩

/-- A section is a script block exactly if it begins with the opening tag of one. -/
theorem isScript_iff {size : Nat} {text : List Char} {parts : List (List Char × Section)}
    (reads : Reads size text parts) {start : List Char} {part : Section}
    (member : (start, part) ∈ parts) :
    (∃ block, part = .script block) ↔ (BlockTag.opening? scriptName start).isSome := by
  obtain ⟨rest, found⟩ := reads.read? member
  constructor
  · rintro ⟨block, rfl⟩
    rw [read?] at found
    split at found
    · cases found
    · split at found
      · rename_i script
        obtain ⟨⟨attributes, inside⟩, opens, -⟩ := Option.bind_eq_some_iff.mp script
        rw [opens]
        rfl
      · split at found
        · cases found
        · obtain ⟨behind, -, same⟩ := Option.map_eq_some_iff.mp found
          cases same
  · intro tagged
    obtain ⟨⟨attributes, inside⟩, opens⟩ := Option.isSome_iff_exists.mp tagged
    cases body : BlockBody.upToClosing? scriptName inside with
    | some content =>
        rw [read?_script size opens body] at found
        cases found
        exact ⟨_, rfl⟩
    | none =>
        -- Without a closing tag nothing can be read.
        rw [read?, template?, script?, style?,
          block?_other size isTagName_scriptName isTagName_templateName (by decide)
            BlockBody.template? opens,
          block?_other size isTagName_scriptName isTagName_styleName (by decide)
            (BlockBody.upToClosing? styleName) opens,
          custom?_of_opening? isTagName_scriptName opens,
          comment?_of_opening? isTagName_scriptName opens, block?, opens] at found
        simp [body] at found

/-- The scripts of a file come one behind the other. -/
theorem pairwise_scripts {size : Nat} {text : List Char} {parts : List (List Char × Section)}
    (size_eq : size = Text.byteLength text) (reads : Reads size text parts) :
    (scripts (parts.map Prod.snd)).Pairwise Block.Precedes := by
  have all_eq : all size false text = .ok (parts.map Prod.snd) :=
    all_eq_ok_iff.mpr ⟨parts, reads, rfl⟩
  obtain ⟨-, ordered⟩ := stands_of_all [] size_eq all_eq
  rw [scripts, List.pairwise_filterMap]
  refine ordered.imp fun apart block counts other also => ?_
  have before := apart block (kept?_of_blockOf? counts).1 other (kept?_of_blockOf? also).1
  rw [Block.stop] at before
  rw [Block.Precedes]
  omega

/-- The first of all scripts comes first among the last ones exactly if it is the only one of its
kind. -/
theorem isFirstOfLast_cons_iff {first : Block} {others : List Block}
    (ordered : (first :: others).Pairwise Block.Precedes) :
    IsFirstOfLast (first :: others) first ↔ ∀ other ∈ others, ¬other.SameKind first := by
  constructor
  · rintro ⟨front, back, split, behind, -⟩
    cases front with
    | nil =>
        obtain ⟨-, rfl⟩ := List.cons.inj split
        exact behind
    | cons other front =>
        obtain ⟨rfl, others_eq⟩ := List.cons.inj split
        have later := (List.pairwise_cons.mp ordered).1 first (by simp [others_eq])
        exact absurd later (Nat.lt_irrefl _)
  · intro lone
    exact ⟨[], others, rfl, lone, .inr (List.forall_mem_nil _)⟩

/-- No two scripts begin their content at one place. -/
theorem eq_of_openEnd_eq {blocks : List Block} (ordered : blocks.Pairwise Block.Precedes)
    {block other : Block} (member : block ∈ blocks) (also : other ∈ blocks)
    (same : block.openEnd = other.openEnd) : block = other := by
  have symmetric : Std.Symm fun block other : Block => block.openEnd ≠ other.openEnd :=
    ⟨fun _ _ different => different.symm⟩
  by_contra different
  exact (ordered.imp fun before => Nat.ne_of_lt before).forall member also different same

end Section

namespace ComponentFile

/-- The script of a kind that a file keeps. -/
def keptScript (file : ComponentFile) (setup : Bool) : Option Block :=
  if setup then file.setupScript else file.script

/-- A file keeps the last script of each kind. -/
theorem keptScript_ofSections (sections : List Section) (setup : Bool) :
    (ofSections sections).keptScript setup =
      ((scripts sections).filter (·.has "setup" == setup)).getLast? := by
  rw [ofSections_eq, keptScript, scripts]
  cases setup <;> simp

/-- A script that is kept is the first one if the other one that is kept comes later. -/
theorem firstScript?_eq {file : ComponentFile} {block : Block} {setup : Bool}
    (kept : file.keptScript setup = some block)
    (later : ∀ other, file.keptScript (!setup) = some other → block.openEnd < other.openEnd) :
    file.firstScript? = some block := by
  obtain ⟨template, setupScript, script, style⟩ := file
  cases setup with
  | false =>
      obtain rfl : script = some block := kept
      cases setupScript with
      | none => rfl
      | some other => exact congrArg some (if_pos (Nat.le_of_lt (later other rfl)))
  | true =>
      obtain rfl : setupScript = some block := kept
      cases script with
      | none => rfl
      | some other => exact congrArg some (if_neg (Nat.not_le_of_lt (later other rfl)))

section Scripts

variable {sections : List Section} {block : Block}

theorem firstScript?_of_isFirstOfLast (ordered : (scripts sections).Pairwise Block.Precedes)
    (first : IsFirstOfLast (scripts sections) block) :
    (ofSections sections).firstScript? = some block := by
  obtain ⟨front, back, scripts_eq, behind, follows⟩ := first
  have kinds : ∀ other ∈ back, (other.has "setup" == !block.has "setup") = true :=
    fun other member => beq_iff_eq.mpr (Bool.eq_not.mpr (behind other member))
  refine @firstScript?_eq _ block (block.has "setup") ?_ fun other kept => ?_
  · have none_behind : back.filter (·.has "setup" == block.has "setup") = [] :=
      List.filter_eq_nil_iff.mpr fun other member same =>
        behind other member (beq_iff_eq.mp same)
    rw [keptScript_ofSections, scripts_eq, List.filter_append, List.filter_cons_of_pos (by simp),
      none_behind, List.getLast?_concat]
  · rw [keptScript_ofSections, scripts_eq, List.filter_append, List.filter_cons_of_neg (by simp),
      List.filter_eq_self.mpr kinds] at kept
    have member : other ∈ back := by
      rcases follows with filled | before
      · rw [List.getLast?_append_of_ne_nil _ filled] at kept
        exact List.mem_of_getLast? kept
      · have none_before : front.filter (·.has "setup" == !block.has "setup") = [] :=
          List.filter_eq_nil_iff.mpr fun other member different =>
            absurd (before other member) (Bool.eq_not.mp (beq_iff_eq.mp different))
        rw [none_before, List.nil_append] at kept
        exact List.mem_of_getLast? kept
    rw [scripts_eq] at ordered
    exact (List.pairwise_cons.mp (List.pairwise_append.mp ordered).2.1).1 other member

theorem mem_scripts_of_firstScript? (found : (ofSections sections).firstScript? = some block) :
    block ∈ scripts sections :=
  List.mem_filterMap.mpr ⟨_, (drawn_ofSections sections).firstScript? block found, rfl⟩

theorem firstScript?_eq_some_iff (ordered : (scripts sections).Pairwise Block.Precedes) :
    (ofSections sections).firstScript? = some block ↔ IsFirstOfLast (scripts sections) block := by
  constructor
  · intro found
    obtain ⟨other, first⟩ :=
      exists_isFirstOfLast (List.ne_nil_of_mem (mem_scripts_of_firstScript? found))
    obtain rfl := Option.some.inj (found.symm.trans (firstScript?_of_isFirstOfLast ordered first))
    exact first
  · exact firstScript?_of_isFirstOfLast ordered

theorem firstScript?_eq_none_iff (ordered : (scripts sections).Pairwise Block.Precedes) :
    (ofSections sections).firstScript? = none ↔ scripts sections = [] := by
  constructor
  · intro missing
    by_contra filled
    obtain ⟨block, first⟩ := exists_isFirstOfLast filled
    cases missing.symm.trans (firstScript?_of_isFirstOfLast ordered first)
  · intro empty
    refine Option.eq_none_iff_forall_ne_some.mpr fun block found => ?_
    obtain ⟨front, back, scripts_eq, -⟩ := (firstScript?_eq_some_iff ordered).mp found
    rw [empty] at scripts_eq
    simp at scripts_eq

/-- The import goes behind the tag of the first of all scripts exactly if this one is the only one
of its kind. -/
theorem importInsertion_eq_iff {first : Block} {others : List Block}
    (ordered : (scripts sections).Pairwise Block.Precedes)
    (scripts_eq : scripts sections = first :: others) (helperImport : String) :
    importInsertion (ofSections sections) helperImport =
        insertion first.openEnd ("\n" ++ helperImport) ↔
      ∀ other ∈ others, ¬other.SameKind first := by
  obtain ⟨block, counts⟩ := @exists_isFirstOfLast (scripts sections) (by simp [scripts_eq])
  have found := firstScript?_of_isFirstOfLast ordered counts
  have listed := mem_scripts_of_firstScript? found
  have first_listed : first ∈ scripts sections := scripts_eq ▸ List.mem_cons_self
  rw [importInsertion, found, ← isFirstOfLast_cons_iff (scripts_eq ▸ ordered), ← scripts_eq,
    ← firstScript?_eq_some_iff ordered, found]
  constructor
  · intro same
    have place_eq : block.openEnd = first.openEnd := congrArg Replacement.start same
    rw [eq_of_openEnd_eq ordered listed first_listed place_eq]
  · intro same
    rw [Option.some.inj same]

end Scripts

/-- The scripts of a file are the sections that begin with the opening tag of one, and they come one
behind the other. The first script of the file is none exactly if there are none; else it is the one
that comes first among the last scripts of the two kinds. So it is the first of all exactly if this
one is the only one of its kind, and then the import that annotating the file puts in goes behind
the tag of that script, and else it does not. -/
theorem firstScript?_read {source : String} {file : ComponentFile}
    (found : read source = .ok file) :
    ∃ parts, Reads (Text.byteLength source.toList) source.toList parts ∧
      (∀ start part, (start, part) ∈ parts →
        ((∃ block, part = .script block) ↔ (BlockTag.opening? scriptName start).isSome)) ∧
      (scripts (parts.map Prod.snd)).Pairwise Block.Precedes ∧
      (file.firstScript? = none ↔ scripts (parts.map Prod.snd) = []) ∧
      (∀ block, file.firstScript? = some block ↔
        IsFirstOfLast (scripts (parts.map Prod.snd)) block) ∧
      (∀ helperImport out, annotate source helperImport = .ok (some out) →
        ∃ template nodes changes, file.template = some template ∧
          TemplateNode.forest template.openEnd template.content = .ok nodes ∧
          Changed source out (importInsertion file helperImport) (TemplateNode.allOutlets nodes)
            changes) ∧
      ∀ first others, scripts (parts.map Prod.snd) = first :: others →
        (file.firstScript? = some first ↔ ∀ other ∈ others, ¬other.SameKind first) ∧
        ∀ helperImport, importInsertion file helperImport =
            insertion first.openEnd ("\n" ++ helperImport) ↔
          ∀ other ∈ others, ¬other.SameKind first := by
  obtain ⟨parts, reads, rfl⟩ := read_eq_ok_iff.mp found
  have ordered := pairwise_scripts rfl reads
  refine ⟨parts, reads, fun start part => isScript_iff reads, ordered,
    firstScript?_eq_none_iff ordered, fun block => firstScript?_eq_some_iff ordered,
    fun helperImport out annotated => ?_, fun first others scripts_eq => ⟨?_, ?_⟩⟩
  · obtain ⟨file, template, nodes, changes, same, template_eq, forest_eq, changed⟩ :=
      exists_changed annotated
    obtain rfl := Except.ok.inj (found.symm.trans same)
    exact ⟨template, nodes, changes, template_eq, forest_eq, changed⟩
  · rw [firstScript?_eq_some_iff ordered, scripts_eq]
    exact isFirstOfLast_cons_iff (scripts_eq ▸ ordered)
  · exact importInsertion_eq_iff ordered scripts_eq

/-- A script in front of two scripts of the other kind. -/
theorem firstScript?_read_twoSetups :
    let source := "<script>a</script><script setup>b</script><script setup>c</script>"
    let file : ComponentFile := ⟨none, some ⟨[⟨"setup", none⟩], "c", 56⟩, some ⟨[], "a", 8⟩, none⟩
    read source = .ok file ∧ file.firstScript? = some ⟨[], "a", 8⟩ ∧
      ∀ helperImport, importInsertion file helperImport = insertion 8 ("\n" ++ helperImport) := by
  intro source file
  have found : read source = .ok file := eq_ok_of_toOption (by decide +kernel)
  have sections_eq : Section.ofText source.toList = .ok [.script ⟨[], "a", 8⟩,
      .script ⟨[⟨"setup", none⟩], "b", 32⟩, .script ⟨[⟨"setup", none⟩], "c", 56⟩] :=
    eq_ok_of_toOption (by decide +kernel)
  obtain ⟨parts, reads, -, -, -, -, -, first⟩ := firstScript?_read found
  have listed := Except.ok.inj (sections_eq.symm.trans (all_eq_ok_iff.mpr ⟨parts, reads, rfl⟩))
  let setups : List Block := [⟨[⟨"setup", none⟩], "b", 32⟩, ⟨[⟨"setup", none⟩], "c", 56⟩]
  have lone : ∀ other ∈ setups, ¬other.SameKind ⟨[], "a", 8⟩ := by
    simp [setups, Block.SameKind, Block.has]
  obtain ⟨first_iff, import_iff⟩ := first ⟨[], "a", 8⟩ setups (by rw [← listed]; rfl)
  exact ⟨found, first_iff.mpr lone, fun helperImport => (import_iff helperImport).mpr lone⟩

/-- Of two scripts of one kind the later one is kept, and the import goes there. -/
theorem annotate_laterScript :
    let source := "<template><slot/></template><script>a</script><script>b</script>"
    let out := "<template><div style=\"display: contents;\" nuxt-ssr-slot-name=\"default\" " ++
      ":nuxt-ssr-slot-data=\"JSON.stringify([\x7b\x7d])\"/></template>" ++
      "<script>a</script><script>\nfb</script>"
    ∃ file parts, read source = .ok file ∧
      Reads (Text.byteLength source.toList) source.toList parts ∧
      scripts (parts.map Prod.snd) = [⟨[], "a", 36⟩, ⟨[], "b", 54⟩] ∧
      file.firstScript? = some ⟨[], "b", 54⟩ ∧ annotate source "f" = .ok (some out) := by
  intro source out
  let template : Block := ⟨[], "<slot/>", 10⟩
  have sections_eq : Section.ofText source.toList =
      .ok [.template template, .script ⟨[], "a", 36⟩, .script ⟨[], "b", 54⟩] :=
    eq_ok_of_toOption (by decide +kernel)
  obtain ⟨parts, reads, listed⟩ := all_eq_ok_iff.mp sections_eq
  refine ⟨⟨some template, none, some ⟨[], "b", 54⟩, none⟩, parts,
    eq_ok_of_toOption (by decide +kernel), reads, ?_, rfl, eq_ok_of_toOption (by decide +kernel)⟩
  rw [← listed]
  rfl

end ComponentFile

end IslandSlots
