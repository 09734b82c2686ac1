import IslandSlots.Proofs.Slot.Annotation
import IslandSlots.Proofs.Template.Quoted

/-!
# Reading back what is written for an outlet

The opening tag in place of an outlet and the markers around its content carry the name and the
data of the slot through another reading, whatever quotes are in a computed name or in the data. A
name that is known and the text of a loop are written as they are, so they survive exactly when
they have no double quote.
-/

namespace IslandSlots

open Text Replacement TemplateNode TemplatePiece

/-! ## Escaped quotes -/

theorem toList_escapeQuotes (text : String) :
    (escapeQuotes text).toList =
      text.toList.flatMap fun c => if c = '"' then quoteEscape else [c] :=
  String.toList_ofList

theorem quote_notMem_escapeQuotes (text : String) : '"' ∉ (escapeQuotes text).toList := by
  rw [toList_escapeQuotes, List.mem_flatMap]
  rintro ⟨c, -, found⟩
  split at found
  · exact absurd found (by decide)
  · rename_i other
    exact other (List.mem_singleton.mp found).symm

/-- Escaping puts an ampersand where a quote was, and changes nothing else. -/
theorem prefix_of_escaped {mark text : List Char} (other : '&' ∉ mark)
    (found : mark <+: text.flatMap fun c => if c = '"' then quoteEscape else [c]) :
    mark <+: text := by
  induction mark generalizing text with
  | nil => exact List.nil_prefix
  | cons first mark induction =>
      obtain ⟨not_first, not_rest⟩ := not_or.mp (List.mem_cons.not.mp other)
      cases text with
      | nil => cases List.prefix_nil.mp found
      | cons c text =>
          rw [List.flatMap_cons] at found
          split at found
          · exact absurd (List.cons_prefix_cons.mp found).1.symm not_first
          · obtain ⟨rfl, rest⟩ := List.cons_prefix_cons.mp found
            exact List.cons_prefix_cons.mpr ⟨rfl, induction not_rest rest⟩

theorem unescapeQuotes_escapeQuotes (text : String) :
    unescapeQuotes (escapeQuotes text).toList = unescapeQuotes text.toList := by
  rw [toList_escapeQuotes]
  generalize text.toList = text
  fun_induction unescapeQuotes text with
  | case1 rest induction => exact congrArg ('"' :: ·) induction
  | case2 c rest other induction =>
      rw [List.flatMap_cons]
      split
      · rename_i quote
        rw [unescapeQuotes_escape, induction, quote]
      · rw [List.singleton_append, unescapeQuotes_cons, induction]
        intro escaped
        obtain ⟨rfl, inside⟩ := List.cons_prefix_cons.mp escaped
        obtain ⟨behind, rfl⟩ := prefix_of_escaped (by decide) inside
        exact other behind rfl rfl
  | case3 => rfl

/-! ## The attributes that are written -/

namespace SlotName

/-- The attribute that carries a name, as it is written. -/
def quoted (attr : String) : SlotName → QuotedAttribute
  | .fixed name => ⟨attr, name⟩
  | .computed expression => ⟨":" ++ attr, escapeQuotes expression⟩

/-- The attribute that carries a name, as it is to be read. -/
def carried (attr : String) : SlotName → TemplateAttribute
  | .fixed name => ⟨.plain, attr, some name⟩
  | .computed expression => ⟨.bind, attr, some expression⟩

/-- A name can stand inside double quotes as it is written. -/
def Quotable : SlotName → Prop
  | .fixed name => '"' ∉ name.toList
  | .computed _ => True

theorem plain_quoted (attr : String) (name : SlotName) :
    (name.quoted attr).Plain ↔ name.Quotable := by
  cases name with
  | fixed name => exact .rfl
  | computed expression => exact iff_true_intro (quote_notMem_escapeQuotes expression)

end SlotName

namespace Outlet

/-- The attribute by which an element makes no box of its own. -/
def contentsAttribute : QuotedAttribute :=
  ⟨"style", "display: contents;"⟩

/-- The attribute that carries the data of a slot, as it is written. -/
def quotedData (outlet : Outlet) : QuotedAttribute :=
  ⟨":" ++ dataAttribute, escapeQuotes (outlet.data outlet.loop?)⟩

/-- The attribute that carries a loop. -/
def quotedLoop (loop : Binding) : QuotedAttribute :=
  ⟨"v-for", loop.render⟩

/-- The attributes that an outlet is to leave behind. -/
def carried (outlet : Outlet) : List TemplateAttribute :=
  [⟨.plain, "style", some "display: contents;"⟩, outlet.name.carried nameAttribute,
    ⟨.bind, dataAttribute, some (outlet.data outlet.loop?)⟩]

theorem openingText_eq (outlet : Outlet) :
    outlet.openingText = QuotedAttribute.boxText
      [contentsAttribute, outlet.name.quoted nameAttribute, outlet.quotedData]
      outlet.opening.selfClosing := by
  rw [openingText_eq_wrapper, wrapper, QuotedAttribute.boxText, ← String.toList_inj]
  cases outlet.name <;>
    simp [SlotName.attribute, SlotName.quoted, quotedData, contentsAttribute, QuotedAttribute.text,
      displayContents]

theorem marker_eq (outlet : Outlet) (attr : String) :
    outlet.marker attr = QuotedAttribute.boxText [outlet.name.quoted attr] true := by
  rw [← String.toList_inj]
  cases name_eq : outlet.name <;>
    simp [marker, QuotedAttribute.boxText, SlotName.attribute, SlotName.quoted,
      QuotedAttribute.text, name_eq]

theorem contentWrapper_eq (loop : Binding) :
    contentWrapper (some loop) =
      QuotedAttribute.boxText [quotedLoop loop, contentsAttribute] false := by
  rw [← String.toList_inj]
  simp [contentWrapper, QuotedAttribute.boxText, quotedLoop, contentsAttribute, loopAttribute,
    QuotedAttribute.text, displayContents]

theorem loopAttribute_eq (loop : Binding) :
    " " ++ loopAttribute loop = QuotedAttribute.text [quotedLoop loop] := by
  rw [← String.toList_inj]
  simp [loopAttribute, quotedLoop, QuotedAttribute.text]

end Outlet

/-! ## What is read -/

/-- A text is read as the opening tag of a box with the given attributes, once the escaped quotes
of values are turned back on both sides. -/
def CarriesAsBox (text : String) (attributes : List TemplateAttribute) (selfClosing : Bool) :
    Prop :=
  ∃ written, ReadsAsBox text written selfClosing ∧
    written.map TemplateAttribute.unescaped = attributes.map TemplateAttribute.unescaped

/-- A text is read as an attribute that stands before all others in a tag. -/
def ReadsInTag (text : String) (attr : TemplateAttribute) : Prop :=
  ∀ behind, tagRest? (bytes text ++ behind) =
    (tagRest? behind).map fun more => { more with attributes := attr :: more.attributes }

/-- A box carries its attributes exactly when no value has a quote as it is written. -/
theorem carriesAsBox_boxText {attributes : List QuotedAttribute} {wanted : List TemplateAttribute}
    {selfClosing : Bool} (named : ∀ attr ∈ attributes, attr.isNamed)
    (same : (attributes.map fun attr => attr.meant.unescaped) =
      wanted.map TemplateAttribute.unescaped) :
    CarriesAsBox (QuotedAttribute.boxText attributes selfClosing) wanted selfClosing ↔
      ∀ attr ∈ attributes, attr.Plain := by
  constructor
  · rintro ⟨written, reads, written_eq⟩
    exact plain_of_readsAsBox named reads (written_eq.trans same.symm)
  · intro plain
    exact ⟨_, readsAsBox_boxText named plain, by rw [List.map_map]; exact same⟩

/-- An escaped value is read as the value, once escaped quotes are turned back. -/
theorem unescaped_meant {name inner : String} {kind : AttributeKind} (value : String)
    (classified : TemplateAttribute.classify name.toList = (kind, inner.toList)) :
    (QuotedAttribute.meant ⟨name, escapeQuotes value⟩).unescaped =
      TemplateAttribute.unescaped ⟨kind, inner, some value⟩ := by
  simp only [QuotedAttribute.meant_eq _ classified, TemplateAttribute.unescaped, Option.map_some,
    unescapeQuotes_escapeQuotes]

theorem SlotName.meant_quoted {attr : String}
    (member : attr ∈ [Outlet.nameAttribute, Outlet.startAttribute, Outlet.endAttribute])
    (name : SlotName) :
    (name.quoted attr).isNamed ∧
      (name.quoted attr).meant.unescaped = (name.carried attr).unescaped := by
  have known : QuotedAttribute.isNamed ⟨attr, ""⟩ ∧ QuotedAttribute.isNamed ⟨":" ++ attr, ""⟩ ∧
      TemplateAttribute.classify attr.toList = (.plain, attr.toList) ∧
      TemplateAttribute.classify (":" ++ attr).toList = (.bind, attr.toList) := by
    simp only [List.mem_cons, List.not_mem_nil, or_false] at member
    rcases member with rfl | rfl | rfl <;> exact ⟨rfl, rfl, rfl, rfl⟩
  obtain ⟨plain_named, bound_named, plain_kind, bound_kind⟩ := known
  cases name with
  | fixed name =>
      rw [quoted, carried, QuotedAttribute.isNamed_eq, QuotedAttribute.meant_eq name plain_kind]
      exact ⟨plain_named, rfl⟩
  | computed expression =>
      rw [quoted, carried, QuotedAttribute.isNamed_eq, unescaped_meant expression bound_kind]
      exact ⟨bound_named, rfl⟩

namespace Outlet

theorem contentsAttribute_reads :
    contentsAttribute.isNamed ∧ contentsAttribute.Plain ∧
      contentsAttribute.meant = ⟨.plain, "style", some "display: contents;"⟩ :=
  ⟨rfl, (by decide : '"' ∉ "display: contents;".toList), rfl⟩

theorem quotedLoop_reads (loop : Binding) :
    (quotedLoop loop).isNamed ∧
      (quotedLoop loop).meant = ⟨.directive, "for", some loop.render⟩ := by
  rw [quotedLoop, QuotedAttribute.isNamed_eq]
  exact ⟨rfl, QuotedAttribute.meant_eq loop.render rfl⟩

theorem quotedData_reads (outlet : Outlet) :
    outlet.quotedData.isNamed ∧ outlet.quotedData.meant.unescaped =
      TemplateAttribute.unescaped ⟨.bind, dataAttribute, some (outlet.data outlet.loop?)⟩ := by
  rw [quotedData, QuotedAttribute.isNamed_eq]
  exact ⟨rfl, unescaped_meant (outlet.data outlet.loop?) rfl⟩

/-- The opening tag in place of an outlet carries the slot exactly when the name can be written as
it is. -/
theorem carriesAsBox_openingText (outlet : Outlet) :
    CarriesAsBox outlet.openingText outlet.carried outlet.opening.selfClosing ↔
      outlet.name.Quotable := by
  obtain ⟨name_named, name_meant⟩ :=
    @SlotName.meant_quoted nameAttribute List.mem_cons_self outlet.name
  obtain ⟨data_named, data_meant⟩ := outlet.quotedData_reads
  obtain ⟨style_named, style_plain, style_meant⟩ := contentsAttribute_reads
  have data_plain : outlet.quotedData.Plain := quote_notMem_escapeQuotes _
  rw [openingText_eq, carriesAsBox_boxText]
  · simp [style_plain, data_plain, SlotName.plain_quoted]
  · simp [style_named, name_named, data_named]
  · simp [carried, style_meant, name_meant, data_meant]

/-- A marker carries the slot exactly when the name can be written as it is. -/
theorem carriesAsBox_marker (outlet : Outlet) {attr : String}
    (member : attr ∈ [startAttribute, endAttribute]) :
    CarriesAsBox (outlet.marker attr) [outlet.name.carried attr] true ↔ outlet.name.Quotable := by
  obtain ⟨named, meant⟩ :=
    SlotName.meant_quoted (List.mem_cons_of_mem nameAttribute member) outlet.name
  rw [marker_eq, carriesAsBox_boxText]
  · simp [SlotName.plain_quoted]
  · simp [named]
  · simp [meant]

/-- The tag of the element around content is read with its loop exactly when the loop has no
quote. -/
theorem readsAsBox_contentWrapper (loop : Binding) :
    ReadsAsBox (contentWrapper (some loop))
        [⟨.directive, "for", some loop.render⟩, ⟨.plain, "style", some "display: contents;"⟩] false ↔
      '"' ∉ loop.render.toList := by
  obtain ⟨loop_named, loop_meant⟩ := quotedLoop_reads loop
  obtain ⟨style_named, style_plain, style_meant⟩ := contentsAttribute_reads
  have named : ∀ attr ∈ [quotedLoop loop, contentsAttribute], attr.isNamed := by
    simp [loop_named, style_named]
  rw [contentWrapper_eq, ← loop_meant, ← style_meant]
  constructor
  · intro reads
    exact plain_of_readsAsBox named reads rfl (quotedLoop loop) List.mem_cons_self
  · intro plain
    refine readsAsBox_boxText named (List.forall_mem_cons.mpr ⟨plain, ?_⟩)
    exact List.forall_mem_singleton.mpr style_plain

/-- The loop that is put into the tag of an element is read there exactly when it has no quote. -/
theorem readsInTag_loopAttribute (loop : Binding) :
    ReadsInTag (" " ++ loopAttribute loop) ⟨.directive, "for", some loop.render⟩ ↔
      '"' ∉ loop.render.toList := by
  obtain ⟨loop_named, loop_meant⟩ := quotedLoop_reads loop
  have named : ∀ attr ∈ [quotedLoop loop], attr.isNamed :=
    List.forall_mem_singleton.mpr loop_named
  rw [loopAttribute_eq, ← loop_meant]
  constructor
  · intro reads
    have found := reads (bytes ">")
    have ending : tagRest? (bytes ">") = some ⟨[], false, []⟩ := by
      simpa using tagRest?_ending false []
    rw [ending, Option.map_some] at found
    exact plain_of_tagRest? named found (List.append_nil _).symm (quotedLoop loop)
      List.mem_cons_self
  · intro plain behind
    exact tagRest?_text named (List.forall_mem_singleton.mpr plain) behind

end Outlet

/-- What is written for an outlet stands in a text, and reading it gives the slot and the loop as
far as no quote is in the way. -/
structure Outlet.ReadBack (outlet : Outlet) (out : String) : Prop where
  /-- All that is put in for the outlet stands in the text. -/
  stands : ∀ change ∈ outlet.changes, ∃ front back, bytes out = front ++ change.content ++ back
  /-- The opening tag in place of the outlet carries the name and the data of the slot. -/
  opening : CarriesAsBox outlet.openingText outlet.carried outlet.opening.selfClosing ↔
    outlet.name.Quotable
  /-- The markers around the content carry the name of the slot. -/
  marker : ∀ attr ∈ [Outlet.startAttribute, Outlet.endAttribute],
    (CarriesAsBox (outlet.marker attr) [outlet.name.carried attr] true ↔ outlet.name.Quotable)
  /-- The tag of the element around the content has the loop. -/
  wrapper : ∀ loop ∈ outlet.loop?,
    (ReadsAsBox (Outlet.contentWrapper (some loop))
      [⟨.directive, "for", some loop.render⟩, ⟨.plain, "style", some "display: contents;"⟩] false ↔
        '"' ∉ loop.render.toList)
  /-- A lone element that is given the loop has it before its other attributes. -/
  inserted : ∀ loop ∈ outlet.loop?,
    (ReadsInTag (" " ++ Outlet.loopAttribute loop) ⟨.directive, "for", some loop.render⟩ ↔
      '"' ∉ loop.render.toList)

/-- What annotating a file writes for an outlet survives another reading exactly when a name that
is not computed and the text of a loop have no double quote, whatever is in the data. -/
theorem annotate_readBack {source helperImport out : String}
    (annotated : annotate source helperImport = .ok (some out)) :
    ∃ file template nodes, ComponentFile.read source = .ok file ∧
      file.template = some template ∧ forest template.openEnd template.content = .ok nodes ∧
      ∀ outlet ∈ allOutlets nodes, outlet.ReadBack out := by
  rcases annotate_cases source helperImport with
    nothing | ⟨error, failed⟩ | ⟨error, failed⟩ |
      ⟨file, template, nodes, made, changes, found, template_eq, forest_eq, made_eq, changed⟩
  · rw [annotated] at nothing
    cases nothing
  · rw [annotated] at failed
    cases failed
  · rw [annotated] at failed
    cases failed
  · rw [annotated] at made_eq
    cases made_eq
    exact ⟨file, template, nodes, found, template_eq, forest_eq, fun outlet member =>
      { stands := changed.exists_content member
        opening := outlet.carriesAsBox_openingText
        marker := fun _ => outlet.carriesAsBox_marker
        wrapper := fun loop _ => Outlet.readsAsBox_contentWrapper loop
        inserted := fun loop _ => Outlet.readsInTag_loopAttribute loop }⟩

/-- A computed name with quotes. -/
theorem annotate_readBack_computedName :
    let source := "<template><slot :name='a[\"b\"]'/></template>"
    let out := "<script setup>\nf\n</script>\n<template><div style=\"display: contents;\" " ++
      ":nuxt-ssr-slot-name=\"a[&quot;b&quot;]\" " ++
      ":nuxt-ssr-slot-data=\"JSON.stringify([\x7b\x7d])\"/></template>"
    annotate source "f" = .ok (some out) ∧
      ∃ file template nodes, ComponentFile.read source = .ok file ∧
        file.template = some template ∧ forest template.openEnd template.content = .ok nodes ∧
        ∀ outlet ∈ allOutlets nodes, outlet.ReadBack out := by
  intro source out
  have annotated : annotate source "f" = .ok (some out) := eq_ok_of_toOption (by decide +kernel)
  exact ⟨annotated, annotate_readBack annotated⟩

/-- A name with a quote is written as it is and read back as a shorter one. -/
theorem annotate_quoteInName :
    let source := "<template><slot name='a\"b'/></template>"
    let out := "<script setup>\nf\n</script>\n<template><div style=\"display: contents;\" " ++
      "nuxt-ssr-slot-name=\"a\"b\" :nuxt-ssr-slot-data=\"JSON.stringify([\x7b\x7d])\"/></template>"
    annotate source "f" = .ok (some out) ∧
      ∃ file template nodes outlet, ComponentFile.read source = .ok file ∧
        file.template = some template ∧ forest template.openEnd template.content = .ok nodes ∧
        outlet ∈ allOutlets nodes ∧
        ¬CarriesAsBox outlet.openingText outlet.carried outlet.opening.selfClosing := by
  intro source out
  let template : Block := ⟨[], "<slot name='a\"b'/>", 10⟩
  let opening : OpeningTag := ⟨"slot", [⟨.plain, "name", some "a\"b"⟩], true, ⟨10, 28⟩⟩
  have found : ComponentFile.read source = .ok ⟨some template, none, none, none⟩ :=
    eq_ok_of_toOption (by decide +kernel)
  obtain ⟨nodes, forest_eq⟩ :=
    exists_eq_ok (forest template.openEnd template.content) (by decide +kernel)
  have openings : (fun nodes => (allOutlets nodes).map Outlet.opening) <$>
      forest template.openEnd template.content = .ok [opening] :=
    eq_ok_of_toOption (by decide +kernel)
  rw [forest_eq] at openings
  obtain ⟨outlet, outlets_eq, opening_eq⟩ :=
    List.map_eq_singleton_iff.mp (Except.ok.inj openings)
  refine ⟨eq_ok_of_toOption (by decide +kernel), _, template, nodes, outlet, found, rfl, forest_eq,
    by simp [outlets_eq], fun carries => ?_⟩
  have quotable := outlet.carriesAsBox_openingText.mp carries
  have name_eq : outlet.name = .fixed "a\"b" := by
    rw [Outlet.name, opening_eq]
    rfl
  rw [name_eq] at quotable
  exact quotable (by decide)

end IslandSlots
