import IslandSlots.Proofs.Component.Contents
import IslandSlots.Proofs.Slot.Annotation
import IslandSlots.Proofs.Template.Openings

/-!
# The quick check for outlets

Whether a file is read at all is told from its text: it has to have the beginning of a template's
tag, and the beginning of an outlet's tag with white space, a slash or a bracket behind it. The
first is no loss, since a file with a template has its tag. The second is: the name of an element
ends at any character that is not part of a name, so the tag of an outlet may go on with one that
the check does not know. A file is passed over exactly when all its outlets do so, and no other text
in it passes the check.
-/

namespace IslandSlots

open Text TemplateNode

/-! ## What the check looks for -/

/-- The beginning of an outlet's tag. -/
def slotStart : List Char :=
  '<' :: slotTag.toList

/-- The beginning of an outlet's tag stands at a place of a text and goes on with a character. -/
def GoesOn (text : List Char) (place : Nat) (c : Char) : Prop :=
  ∃ front back, text = front ++ (slotStart ++ c :: back) ∧ byteLength front = place

/-- Whether a character may stand in the name of an element. -/
def isTagChar (c : Char) : Bool :=
  c.isAlphanum || c == '_' || c == '-' || c == '.' || c == ':'

theorem any_after?_iff {text : List Char} :
    (after? slotStart text).any (fun behind => behind.head?.any endsSlotTag) ↔
      ∃ c, GoesOn text 0 c ∧ endsSlotTag c := by
  constructor
  · intro found
    obtain ⟨behind, after_eq, ends⟩ := (Option.any_eq_true _ _).mp found
    obtain ⟨c, head_eq, ends⟩ := (Option.any_eq_true _ _).mp ends
    obtain ⟨back, rfl⟩ := List.head?_eq_some_iff.mp head_eq
    exact ⟨c, ⟨[], back, by rw [eq_of_after? after_eq, List.nil_append], rfl⟩, ends⟩
  · rintro ⟨c, ⟨front, back, rfl, empty⟩, ends⟩
    rw [byteLength_eq_zero empty, List.nil_append, after?_eq_some_iff.mpr rfl]
    exact ends

/-- The check finds what goes on with a character that may end the name of a tag. -/
theorem hasSlotTag_iff {text : List Char} :
    hasSlotTag text ↔ ∃ place c, GoesOn text place c ∧ endsSlotTag c := by
  induction text with
  | nil => simp [hasSlotTag, GoesOn, slotStart]
  | cons first text induction =>
      rw [hasSlotTag, Bool.or_eq_true, induction]
      constructor
      · rintro (here | ⟨place, c, ⟨front, back, rfl, -⟩, ends⟩)
        · exact ⟨0, any_after?_iff.mp here⟩
        · exact ⟨_, c, ⟨first :: front, back, rfl, rfl⟩, ends⟩
      · rintro ⟨place, c, ⟨front, back, split, -⟩, ends⟩
        cases front with
        | nil => exact .inl (any_after?_iff.mpr ⟨c, ⟨[], back, split, rfl⟩, ends⟩)
        | cons other front =>
            obtain ⟨-, rest_eq⟩ := List.cons.inj split
            exact .inr ⟨_, c, ⟨front, back, rest_eq, rfl⟩, ends⟩

theorem hasSlotTag_eq_false_iff {text : List Char} :
    hasSlotTag text = false ↔ ∀ place c, GoesOn text place c → endsSlotTag c = false := by
  rw [← Bool.not_eq_true, hasSlotTag_iff]
  simp only [not_exists, not_and, Bool.not_eq_true]

/-! ## The tag of the template -/

/-- A file with a template has the beginning of its tag. -/
theorem hasTemplateTag_of_read {source : String} {file : ComponentFile} {template : Block}
    (found : ComponentFile.read source = .ok file) (template_eq : file.template = some template) :
    hasTemplateTag source.toList := by
  obtain ⟨parts, reads, rfl⟩ := ComponentFile.read_eq_ok_iff.mp found
  obtain ⟨block, member⟩ := ComponentFile.template_ofSections_isSome_iff.mp
    (Option.isSome_of_eq_some template_eq)
  obtain ⟨⟨start, part⟩, part_member, rfl⟩ := List.mem_map.mp member
  obtain ⟨rest, same⟩ := reads.read? part_member
  obtain ⟨inside, opens⟩ := Section.opening?_of_template same
  obtain ⟨c, behind, start_eq, -⟩ := BlockTag.exists_of_opening? opens
  have begins : '<' :: BlockBody.templateName <+: start :=
    ⟨c :: behind, by rw [start_eq, List.cons_append]⟩
  exact occursIn_iff.mpr (begins.isInfix.trans (Section.Reads.suffix [] rfl reads part_member).isInfix)

/-! ## The tag of an outlet -/

theorem utf8EncodeChar_of_isTagChar {c : Char} (named : isTagChar c) :
    ∃ b, String.utf8EncodeChar c = [b] ∧ TemplatePiece.isTagByte b := by
  have small : c.toNat < 128 := by
    have value : c.val.toNat = c.toNat := rfl
    delta isTagChar Char.isAlphanum Char.isAlpha Char.isUpper Char.isLower Char.isDigit at named
    simp only [Bool.or_eq_true, Bool.and_eq_true, decide_eq_true_eq, beq_iff_eq, ge_iff_le,
      UInt32.le_iff_toNat_le, Char.reduceVal, UInt32.reduceToNat, value] at named
    rcases named with (((other | rfl) | rfl) | rfl) | rfl
    · omega
    all_goals decide
  have number : (charByte c).toNat = c.toNat := by
    rw [charByte, UInt8.toNat_ofNat']
    omega
  have same : byteChar (charByte c) = c := by
    rw [byteChar, number, Char.ofNat_toNat]
  refine ⟨charByte c, ?_, ?_⟩
  · have encoded := @utf8EncodeChar_ofNat (charByte c) (UInt8.lt_iff_toNat_lt.mpr (number ▸ small))
    rwa [← byteChar, same] at encoded
  · rw [TemplatePiece.isTagByte, same]
    exact named

/-- Where the opening tag of an outlet stands, its beginning goes on with a character that is no
part of a name. -/
theorem exists_goesOn {text : List Char} {opening : OpeningTag} {inside : List UInt8}
    (slot : opening.tag = slotTag) (spelled : opening.IsSpelled inside)
    (holds : opening.span.Holds (encode text) (charByte '<' :: bytes opening.tag ++ inside)) :
    ∃ c, GoesOn text opening.span.start c ∧ isTagChar c = false := by
  obtain ⟨front, back, bytes_eq, span_eq⟩ := holds
  have split : encode text = front ++ charByte '<' :: (bytes slotTag ++ (inside ++ back)) := by
    rw [bytes_eq, slot]
    simp only [List.append_assoc, List.cons_append]
  obtain ⟨before, after, rfl, length_eq⟩ := (isCut_of_ascii split (by decide)).1
  rw [encode_append] at split
  obtain ⟨-, after_bytes⟩ := List.append_inj split (by rw [length_encode, length_eq])
  have after_eq : after = slotStart ++ decode (inside ++ back) := by
    rw [← decode_encode after, after_bytes, ← decode_encode_append]
    rfl
  have behind_bytes : encode (decode (inside ++ back)) = inside ++ back := by
    rw [after_eq, encode_append] at after_bytes
    exact List.append_cancel_left (after_bytes : encode slotStart ++ _ = encode slotStart ++ _)
  cases behind : decode (inside ++ back) with
  | nil =>
      -- Nothing is no rest of a tag.
      obtain ⟨slash, -, rest⟩ := spelled.rest
      rw [behind, encode_nil] at behind_bytes
      have ended := rest back
      rw [← behind_bytes, TemplatePiece.tagRest?] at ended
      cases ended
  | cons c more =>
      refine ⟨c, ⟨before, more, by rw [after_eq, behind], by rw [length_eq, span_eq]⟩, ?_⟩
      by_contra named
      obtain ⟨b, encoded, tagged⟩ := utf8EncodeChar_of_isTagChar (Bool.not_eq_false _ ▸ named)
      have nameless := spelled.nameless back
      rw [← behind_bytes, behind, encode, List.flatMap_cons, encoded, List.singleton_append,
        List.takeWhile_cons_of_pos tagged] at nameless
      cases nameless

/-! ## Files that are passed over -/

/-- A file that passes the check and has an outlet is not left as it is. -/
theorem annotate_ne_none {source : String} {file : ComponentFile} {template : Block}
    {nodes : List TemplateNode} {outlet : Outlet} (found : ComponentFile.read source = .ok file)
    (template_eq : file.template = some template)
    (forest_eq : forest template.openEnd template.content = .ok nodes)
    (member : outlet ∈ allOutlets nodes)
    (passes : (!hasSlotTag source.toList || !hasTemplateTag source.toList) = false)
    (helperImport : String) : annotate source helperImport ≠ .ok none := by
  have filled : (allOutlets nodes).isEmpty = false := by
    rw [List.isEmpty_eq_false_iff]
    exact List.ne_nil_of_mem member
  intro left
  rw [annotate, passes, found] at left
  simp only [Except.mapError, bind, Except.bind, template_eq, forest_eq, filled] at left
  cases edits_eq : annotationEdits file (allOutlets nodes) helperImport with
  | error error =>
      rw [edits_eq] at left
      cases left
  | ok edits =>
      rw [edits_eq] at left
      cases made_eq : editedText edits source with
      | error error =>
          simp only [made_eq] at left
          cases left
      | ok out =>
          simp only [made_eq] at left
          cases left

/-- A template with one outlet has an element for it. -/
theorem exists_occurs {base : Nat} {content : String} {opening : OpeningTag}
    (openings : (fun nodes => (allOutlets nodes).map Outlet.opening) <$> forest base content =
      .ok [opening]) :
    ∃ nodes ancestors children closing, forest base content = .ok nodes ∧
      Occurs nodes ancestors (.element opening children closing) ∧ opening.tag = slotTag := by
  obtain ⟨nodes, forest_eq, listed⟩ := map_eq_ok.mp openings
  obtain ⟨outlet, outlets_eq, rfl⟩ := List.map_eq_singleton_iff.mp listed
  obtain ⟨slot, ancestors, occurs⟩ :=
    @occurs_of_mem_allOutlets outlet nodes (outlets_eq ▸ List.mem_singleton_self outlet)
  exact ⟨nodes, ancestors, outlet.children, outlet.closing, forest_eq, occurs, slot⟩

/-- An outlet of a file stands at its place in the text, and its name ends there at a character
that is no part of a name. The file is left as it is exactly if this character and that behind every
other text like the beginning of an outlet's tag are none that the check knows; the check for the
tag of the template never leaves out a file. -/
theorem annotate_eq_none_iff {source : String} {file : ComponentFile} {template : Block}
    {nodes ancestors children : List TemplateNode} {opening : OpeningTag} {closing : Option Span}
    (found : ComponentFile.read source = .ok file) (template_eq : file.template = some template)
    (forest_eq : forest template.openEnd template.content = .ok nodes)
    (occurs : Occurs nodes ancestors (.element opening children closing))
    (slot : opening.tag = slotTag) (helperImport : String) :
    hasTemplateTag source.toList ∧
      (∃ c, GoesOn source.toList opening.span.start c ∧ isTagChar c = false) ∧
      (annotate source helperImport = .ok none ↔
        ∀ place c, GoesOn source.toList place c → endsSlotTag c = false) := by
  have tagged := hasTemplateTag_of_read found template_eq
  refine ⟨tagged, ?_, ?_⟩
  · obtain ⟨before, after, bytes_eq, place_eq⟩ := exists_bytes_eq found template_eq
    rw [place_eq] at forest_eq
    obtain ⟨inside, spelled, holds⟩ := exists_isSpelled bytes_eq forest_eq occurs
    exact exists_goesOn slot spelled holds
  · rw [← hasSlotTag_eq_false_iff]
    constructor
    · intro left
      by_contra looks
      rw [Bool.not_eq_false] at looks
      have passes : (!hasSlotTag source.toList || !hasTemplateTag source.toList) = false := by
        rw [looks, tagged]
        rfl
      exact annotate_ne_none found template_eq forest_eq (occurs.mem_allOutlets slot) passes
        helperImport left
    · intro missed
      rw [annotate, missed]
      rfl

/-- A comment makes the check see a file whose outlet it does not know. -/
theorem annotate_eq_none_iff_tagInComment :
    let source := "<template><slot@click='go'/><!--<slot>--></template>"
    ∃ file template nodes ancestors opening children closing,
      ComponentFile.read source = .ok file ∧ file.template = some template ∧
      forest template.openEnd template.content = .ok nodes ∧
      Occurs nodes ancestors (.element opening children closing) ∧ opening.tag = slotTag ∧
      hasTemplateTag source.toList ∧
      (∃ c, GoesOn source.toList opening.span.start c ∧ isTagChar c = false) ∧
      annotate source "f" ≠ .ok none := by
  intro source
  let template : Block := ⟨[], "<slot@click='go'/><!--<slot>-->", 10⟩
  let opening : OpeningTag := ⟨"slot", [⟨.on, "click", some "go"⟩], true, ⟨10, 28⟩⟩
  have found : ComponentFile.read source = .ok ⟨some template, none, none, none⟩ :=
    eq_ok_of_toOption (by decide +kernel)
  obtain ⟨nodes, ancestors, children, closing, forest_eq, occurs, slot⟩ :=
    @exists_occurs template.openEnd template.content opening
      (eq_ok_of_toOption (by decide +kernel))
  obtain ⟨tagged, stands, left_iff⟩ := annotate_eq_none_iff found rfl forest_eq occurs slot "f"
  refine ⟨_, template, nodes, ancestors, opening, children, closing, found, rfl, forest_eq, occurs,
    slot, tagged, stands, fun left => ?_⟩
  have commented : GoesOn source.toList 32 '>' :=
    ⟨"<template><slot@click='go'/><!--".toList, "--></template>".toList, by decide, by decide⟩
  exact absurd (left_iff.mp left 32 '>' commented) (by decide)

/-- An outlet whose name is followed by the mark of an attribute is not seen, and the file is left as
it is. -/
theorem annotate_outletWithMark :
    let source := "<template><slot@click=\"go\"/></template>"
    ∃ file template nodes ancestors opening children closing,
      ComponentFile.read source = .ok file ∧ file.template = some template ∧
      forest template.openEnd template.content = .ok nodes ∧
      Occurs nodes ancestors (.element opening children closing) ∧ opening.tag = slotTag ∧
      hasSlotTag source.toList = false ∧ annotate source "f" = .ok none := by
  intro source
  let template : Block := ⟨[], "<slot@click=\"go\"/>", 10⟩
  let opening : OpeningTag := ⟨"slot", [⟨.on, "click", some "go"⟩], true, ⟨10, 28⟩⟩
  have found : ComponentFile.read source = .ok ⟨some template, none, none, none⟩ :=
    eq_ok_of_toOption (by decide +kernel)
  obtain ⟨nodes, ancestors, children, closing, forest_eq, occurs, slot⟩ :=
    @exists_occurs template.openEnd template.content opening
      (eq_ok_of_toOption (by decide +kernel))
  exact ⟨_, template, nodes, ancestors, opening, children, closing, found, rfl, forest_eq, occurs,
    slot, by decide +kernel, eq_ok_of_toOption (by decide +kernel)⟩

end IslandSlots
