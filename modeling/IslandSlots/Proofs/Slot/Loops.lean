import IslandSlots.Proofs.Slot.Content
import IslandSlots.Proofs.Slot.Reading
import IslandSlots.Proofs.Template.Openings

/-!
# Loops of content

Where an outlet loops, what it holds is to loop as well. Several nodes are put into one element
that has the loop, and a lone element is given the loop before its other attributes. Any other lone
node, an outlet included, stays between the markers as it is, without the loop.
-/

namespace IslandSlots

open Text Replacement TemplateNode
open TemplatePiece (Reads ReadsAsBox tagRest?)

/-! ## Content with a loop -/

/-- Whether an attribute gives a loop. -/
def TemplateAttribute.isLoop (attr : TemplateAttribute) : Bool :=
  attr.kind == .directive && attr.name == "for"

/-- Some attributes have a loop and no other one. -/
def Binding.IsOnly (loop : Binding) (attributes : List TemplateAttribute) : Prop :=
  attributes.filter TemplateAttribute.isLoop = [⟨.directive, "for", some loop.render⟩]

namespace Outlet

/-- What stands between the markers of an outlet loops: all that the outlet holds is in one element,
which is put in or changed for the outlet and has the loop and no other one. -/
inductive InLoop (outlet : Outlet) (source : String) (closing : Span) (loop : Binding) :
    List UInt8 → Prop where
  /-- The element is put around it. -/
  | around {tag : String} {attributes : List TemplateAttribute} :
      insertion outlet.opening.span.stop (outlet.marker startAttribute ++ tag) ∈ outlet.changes →
        ReadsAsBox tag attributes false → loop.IsOnly attributes →
          InLoop outlet source closing loop
            (bytes tag ++ outlet.held source closing ++ bytes "</div>")
  /-- The element is the only node there. Its tag is changed and keeps its other attributes. -/
  | within {child : OpeningTag} {children : List TemplateNode} {span : Option Span}
      {front written changed back : List UInt8} {attributes : List TemplateAttribute} :
      significant outlet.children = [.element child children span] → child.tag ≠ slotTag →
        child.span.Holds (bytes source) written →
          outlet.opening.span.stop + front.length = child.span.start →
            outlet.held source closing = front ++ written ++ back →
              (∀ offset behind, Reads changed behind offset (.opening ⟨child.tag, attributes,
                child.selfClosing, ⟨offset, offset + changed.length⟩⟩)) →
                loop.IsOnly attributes →
                  (attributes.filter fun attr => !attr.isLoop) =
                    child.attributes.filter (fun attr => !attr.isLoop) →
                    InLoop outlet source closing loop (front ++ changed ++ back)

/-- The content of an outlet can be given a loop: it is several nodes, or one element that is no
outlet and has no loop by itself. -/
def TakesLoop (outlet : Outlet) : Prop :=
  match significant outlet.children with
  | [] => False
  | [.element child _ _] => child.tag ≠ slotTag ∧ ∀ attr ∈ child.attributes, attr.isLoop = false
  | [_] => False
  | _ => True

end Outlet

/-! ## What is put before the content -/

theorem eq_of_insertion_eq {place : Nat} {first second : String}
    (same : insertion place first = insertion place second) : first = second := by
  have contents : encode first.toList = encode second.toList := congrArg Replacement.content same
  rw [← String.toList_inj, ← decode_encode first.toList, contents, decode_encode]

theorem TemplateNode.Laid.lt_of_mem_loopInsertions {file : List UInt8} {start stop : Nat}
    {nodes : List TemplateNode} (laid : Laid file start stop nodes) (loop : Option Binding) :
    ∀ change ∈ nodes.flatMap (Outlet.loopInsertions loop), start < change.start := by
  induction laid with
  | nil => exact List.forall_mem_nil _
  | @leaf _ _ _ node _ plain taken _ induction =>
      have nothing : Outlet.loopInsertions loop node = [] := by
        cases node with
        | element => cases plain
        | _ => cases loop <;> rfl
      rw [List.flatMap_cons, nothing, List.nil_append]
      exact fun change member => Nat.lt_trans taken (induction change member)
  | @element opening children nodes closing inner next stop stands _ inside closes _ _ induction =>
      have name := stands.name_lt
      have bound := inside.le
      have closed := closes.le
      rw [List.flatMap_cons]
      refine List.forall_mem_append.mpr ⟨?_, fun change member => ?_⟩
      · cases loop with
        | none => exact List.forall_mem_nil _
        | some loop =>
            rw [Outlet.loopInsertions]
            split
            · exact List.forall_mem_nil _
            · exact List.forall_mem_singleton.mpr (by simp only [insertion]; omega)
      · have later := induction change member
        omega

namespace Outlet

variable {outlet : Outlet} {source : String} {closing : Span} {loop : Binding}

/-- What an outlet has put right behind its opening tag is put before its content. -/
theorem mem_beforeContent {put : String} (stands : outlet.Stands (bytes source) closing)
    (member : insertion outlet.opening.span.stop put ∈ outlet.changes) :
    insertion outlet.opening.span.stop put ∈ outlet.beforeContent := by
  obtain ⟨opening_stands, closed, forward, inside⟩ := stands
  rw [changes, closed] at member
  simp only [contentChanges_eq, List.append_assoc] at member
  rcases List.mem_cons.mp member with opening_eq | member
  · have name := opening_stands.name_lt
    have start_eq := congrArg Replacement.start opening_eq
    simp only [insertion, Span.replacedBy] at start_eq
    omega
  · rcases List.mem_append.mp member with before | member
    · exact before
    · rcases List.mem_append.mp member with looped | member
      · exact absurd (inside.lt_of_mem_loopInsertions _ _ looped) (Nat.lt_irrefl _)
      · rcases List.mem_append.mp member with behind | last
        · rcases outlet.beforeContent_cases closing with
            ⟨-, nothing⟩ | ⟨filled, _, _, -, behind_eq⟩
          · rw [nothing] at behind
            cases behind
          · rw [behind_eq] at behind
            have bound := inside.lt filled
            have start_eq := congrArg Replacement.start (List.mem_singleton.mp behind)
            simp only [insertion] at start_eq
            omega
        · have closing_eq := List.mem_singleton.mp last
          have start_eq := congrArg Replacement.start closing_eq
          have stop_eq := congrArg Replacement.stop closing_eq
          simp only [insertion, Span.replacedBy] at start_eq stop_eq
          omega

/-- A tag that begins with a loop and has no other one has no quote in that loop. -/
theorem plain_of_isOnly {others : List QuotedAttribute} {behind : List UInt8}
    {rest : TemplatePiece.TagRest}
    (found : tagRest? (bytes (QuotedAttribute.text (quotedLoop loop :: others)) ++ behind) =
      some rest) (only : loop.IsOnly rest.attributes) : '"' ∉ loop.render.toList := by
  obtain ⟨named, meant⟩ := quotedLoop_reads loop
  by_contra quoted
  simp only [QuotedAttribute.bytes_text, List.cons_append, List.append_assoc] at found
  obtain ⟨value, more, attributes_eq, different⟩ :=
    TemplatePiece.exists_first_of_not_plain named (not_not.mpr quoted) found
  have meant_other : QuotedAttribute.meant ⟨"v-for", value⟩ = ⟨.directive, "for", some value⟩ :=
    QuotedAttribute.meant_eq value rfl
  rw [quotedLoop, meant_other] at attributes_eq different
  rw [Binding.IsOnly, attributes_eq, List.filter_cons_of_pos rfl] at only
  rw [← quotedLoop, meant, (List.cons.inj only).1] at different
  exact different rfl

/-- Several nodes are in one element that loops exactly when the loop has no quote. -/
theorem inLoop_several_iff {first second : TemplateNode} {rest : List TemplateNode}
    (found : significant outlet.children = first :: second :: rest)
    (looped : outlet.loop? = some loop) (stands : outlet.Stands (bytes source) closing) :
    outlet.InLoop source closing loop (outlet.shown source closing) ↔
      '"' ∉ loop.render.toList := by
  have before_eq : outlet.beforeContent = [insertion outlet.opening.span.stop
      (outlet.marker startAttribute ++ contentWrapper (some loop))] := by
    rw [beforeContent, found, looped]
  have shown_eq : outlet.shown source closing =
      bytes (contentWrapper (some loop)) ++ outlet.held source closing ++ bytes "</div>" := by
    rw [shown, found, looped]
  constructor
  · intro loops
    generalize outlet.shown source closing = content at loops
    cases loops with
    | @around tag attributes put reads only =>
        have here := mem_beforeContent stands put
        rw [before_eq] at here
        have same := eq_of_insertion_eq (List.mem_singleton.mp here)
        obtain rfl : tag = contentWrapper (some loop) := by
          rw [← String.toList_inj] at same ⊢
          simpa only [String.toList_append, List.append_cancel_left_eq] using same
        rw [contentWrapper_eq] at reads
        obtain ⟨behind, more, more_eq, rfl⟩ := TemplatePiece.tagRest?_of_readsAsBox reads
        exact plain_of_isOnly more_eq only
    | within alone =>
        rw [found] at alone
        cases alone
  · intro plain
    have reads := (readsAsBox_contentWrapper loop).mpr plain
    have put : insertion outlet.opening.span.stop
        (outlet.marker startAttribute ++ contentWrapper (some loop)) ∈ outlet.changes := by
      rw [changes, stands.closed]
      simp only [contentChanges_eq, before_eq, List.cons_append]
      exact List.mem_cons_of_mem _ List.mem_cons_self
    rw [shown_eq]
    exact .around put reads rfl

/-- Around a lone node no element is put. -/
theorem not_around {only : TemplateNode} {tag : String} {attributes : List TemplateAttribute}
    (found : significant outlet.children = [only]) (stands : outlet.Stands (bytes source) closing)
    (put : insertion outlet.opening.span.stop (outlet.marker startAttribute ++ tag) ∈
      outlet.changes) : ¬ReadsAsBox tag attributes false := by
  have here := mem_beforeContent stands put
  rw [beforeContent, found] at here
  have same := eq_of_insertion_eq (List.mem_singleton.mp here)
  obtain rfl : tag = "" := by
    rw [← String.toList_inj] at same
    rw [← String.toList_eq_nil_iff]
    simpa only [String.toList_append, List.append_right_eq_self] using same
  intro reads
  obtain ⟨first, more, nothing, -⟩ := reads 0 []
  cases nothing

/-- A lone node that is no element, or is an outlet itself, does not loop. -/
theorem not_inLoop_bare {only : TemplateNode} (found : significant outlet.children = [only])
    (bare : ∀ child children span, only = .element child children span → child.tag = slotTag)
    (stands : outlet.Stands (bytes source) closing)
    (content : List UInt8) : ¬outlet.InLoop source closing loop content := by
  intro loops
  cases loops with
  | around put reads => exact not_around found stands put reads
  | within alone other =>
      rw [found] at alone
      exact other (bare _ _ _ (List.cons.inj alone).1)

end Outlet

/-! ## A lone element -/

namespace OpeningTag

variable {opening : OpeningTag} {loop : Binding} {inside : List UInt8}

/-- An opening tag with a loop is read as what follows its name. -/
theorem IsSpelled.read_looped (spelled : opening.IsSpelled inside) (offset : Nat)
    (behind : List UInt8) :
    ∃ rest, opening.looped loop inside ++ behind = charByte '<' :: rest ∧
      TemplatePiece.read offset (charByte '<') rest =
        match tagRest? (bytes (" " ++ Outlet.loopAttribute loop) ++ (inside ++ behind)) with
        | some more => .ok (.opening ⟨opening.tag, more.attributes,
            more.slash || TemplatePiece.isVoid opening.tag,
            ⟨offset, offset + 1 + (rest.length - more.behind.length)⟩⟩, more.behind)
        | none => .error ⟨.unterminatedTag opening.tag, offset⟩ := by
  refine ⟨bytes opening.tag ++ (bytes (" " ++ Outlet.loopAttribute loop) ++ (inside ++ behind)), ?_,
    TemplatePiece.read_named spelled.begins spelled.named offset ?_⟩
  · simp only [looped, List.cons_append, List.append_assoc]
  · rw [Outlet.loopAttribute_eq, QuotedAttribute.bytes_text]
    rfl

/-- A loop without a quote is read before the other attributes. -/
theorem IsSpelled.reads_looped (spelled : opening.IsSpelled inside)
    (plain : '"' ∉ loop.render.toList) (offset : Nat) (behind : List UInt8) :
    Reads (opening.looped loop inside) behind offset (.opening ⟨opening.tag,
      ⟨.directive, "for", some loop.render⟩ :: opening.attributes, opening.selfClosing,
      ⟨offset, offset + (opening.looped loop inside).length⟩⟩) := by
  obtain ⟨rest, bytes_eq, found⟩ := spelled.read_looped offset behind
  obtain ⟨slash, selfClosing_eq, rest_eq⟩ := spelled.rest
  have lengths := congrArg List.length bytes_eq
  rw [(Outlet.readsInTag_loopAttribute loop).mpr plain, rest_eq, Option.map_some] at found
  rw [List.length_append, List.length_cons] at lengths
  have taken : 0 < (opening.looped loop inside).length := Nat.succ_pos _
  have stop_eq : offset + 1 + (rest.length - behind.length) =
      offset + (opening.looped loop inside).length := by omega
  refine ⟨charByte '<', rest, bytes_eq, ?_⟩
  rw [found, selfClosing_eq, ← stop_eq]

/-- If the loop is the only one that is read, it has no quote and is the only one in the tag. -/
theorem IsSpelled.plain_of_reads (spelled : opening.IsSpelled inside) {offset : Nat}
    {behind : List UInt8} {tag : OpeningTag}
    (reads : Reads (opening.looped loop inside) behind offset (.opening tag))
    (only : loop.IsOnly tag.attributes) :
    '"' ∉ loop.render.toList ∧ ∀ attr ∈ opening.attributes, attr.isLoop = false := by
  obtain ⟨rest, bytes_eq, found⟩ := spelled.read_looped offset behind
  obtain ⟨first, inner, inner_eq, read_eq⟩ := reads
  rw [bytes_eq] at inner_eq
  obtain ⟨rfl, rfl⟩ := List.cons.inj inner_eq
  rw [read_eq] at found
  split at found
  · rename_i more more_eq
    obtain ⟨tag_eq, -⟩ := Prod.mk.inj (Except.ok.inj found)
    obtain rfl := TemplatePiece.opening.inj tag_eq
    have plain : '"' ∉ loop.render.toList := by
      rw [Outlet.loopAttribute_eq] at more_eq
      exact Outlet.plain_of_isOnly more_eq only
    obtain ⟨slash, -, rest_eq⟩ := spelled.rest
    rw [(Outlet.readsInTag_loopAttribute loop).mpr plain, rest_eq] at more_eq
    obtain rfl := Option.some.inj more_eq
    refine ⟨plain, fun attr member => ?_⟩
    have others := (List.cons.inj only).2
    exact Bool.eq_false_iff.mpr (List.filter_eq_nil_iff.mp others attr member)
  · cases found

end OpeningTag

namespace Outlet

variable {outlet : Outlet} {source : String} {closing : Span} {loop : Binding} {child : OpeningTag}
  {children : List TemplateNode} {span : Option Span} {written : List UInt8}

/-- A lone element loops exactly when it has no loop by itself and the loop has no quote. -/
theorem inLoop_lone_iff (found : significant outlet.children = [.element child children span])
    (other : child.tag ≠ slotTag) (looped : outlet.loop? = some loop)
    (stands : outlet.Stands (bytes source) closing)
    (spelled : child.IsSpelled written)
    (holds : child.span.Holds (bytes source) (charByte '<' :: bytes child.tag ++ written)) :
    outlet.InLoop source closing loop (outlet.shown source closing) ↔
      (∀ attr ∈ child.attributes, attr.isLoop = false) ∧ '"' ∉ loop.render.toList := by
  obtain ⟨front, back, front_length, held_eq, shown_eq⟩ :=
    exists_lone found other looped stands holds
  rw [shown_eq]
  constructor
  · intro loops
    generalize content_eq : front ++ child.looped loop written ++ back = content at loops
    cases loops with
    | around put reads => exact absurd reads (not_around found stands put)
    | @within _ _ _ front' written' changed back' _ alone _ holds' front_length' held_eq' reads only =>
        rw [found] at alone
        cases alone
        obtain rfl := holds.eq holds'
        rw [held_eq, List.append_assoc front, List.append_assoc front'] at held_eq'
        obtain ⟨rfl, behind_eq⟩ := List.append_inj held_eq' (by omega)
        obtain rfl := List.append_cancel_left behind_eq
        obtain rfl := List.append_cancel_left (List.append_cancel_right content_eq)
        exact (spelled.plain_of_reads (reads 0 []) only).symm
  · rintro ⟨loopless, plain⟩
    have nothing : child.attributes.filter TemplateAttribute.isLoop = [] :=
      List.filter_eq_nil_iff.mpr fun attr member => Bool.eq_false_iff.mp (loopless attr member)
    refine .within found other holds front_length held_eq
      (fun offset behind => spelled.reads_looped plain offset behind) ?_
      (List.filter_cons_of_neg Bool.false_ne_true)
    rw [Binding.IsOnly, List.filter_cons_of_pos rfl, nothing]

/-- What an outlet holds loops exactly when it can be given the loop and that has no quote. -/
theorem inLoop_shown_iff (filled : significant outlet.children ≠ [])
    (looped : outlet.loop? = some loop) (stands : outlet.Stands (bytes source) closing)
    (spelled : ∀ child children span, .element child children span ∈ outlet.children →
      ∃ written, child.IsSpelled written ∧
        child.span.Holds (bytes source) (charByte '<' :: bytes child.tag ++ written)) :
    outlet.InLoop source closing loop (outlet.shown source closing) ↔
      outlet.TakesLoop ∧ '"' ∉ loop.render.toList := by
  rw [TakesLoop]
  rcases found : significant outlet.children with _ | ⟨only, _ | ⟨second, rest⟩⟩
  · exact absurd found filled
  · by_cases bare : ∀ child children span, only = .element child children span → child.tag = slotTag
    · have never : ¬outlet.InLoop source closing loop (outlet.shown source closing) :=
        not_inLoop_bare found bare stands _
      refine iff_of_false never fun takes => ?_
      cases only with
      | element child children span => exact takes.1.1 (bare child children span rfl)
      | _ => exact takes.1
    · push Not at bare
      obtain ⟨child, children, span, rfl, other⟩ := bare
      obtain ⟨written, spelling, holds⟩ :=
        spelled child children span (mem_of_significant_eq found)
      rw [inLoop_lone_iff found other looped stands spelling holds]
      simp only [ne_eq, other, not_false_eq_true, true_and]
  · rw [inLoop_several_iff found looped stands]
    simp only [true_and]

/-- The tag in place of an outlet has no loop, as far as its name can be written. -/
theorem loopless_openingText (quotable : outlet.name.Quotable) :
    ∃ attributes, ReadsAsBox outlet.openingText attributes outlet.opening.selfClosing ∧
      ∀ attr ∈ attributes, attr.isLoop = false := by
  obtain ⟨attributes, reads, same⟩ := outlet.carriesAsBox_openingText.mpr quotable
  refine ⟨attributes, reads, fun attr member => ?_⟩
  have kept : attr.unescaped ∈ outlet.carried.map TemplateAttribute.unescaped := by
    rw [← same]
    exact List.mem_map_of_mem member
  obtain ⟨carried, carried_member, carried_eq⟩ := List.mem_map.mp kept
  have loopless : carried.isLoop = false := by
    rw [Outlet.carried] at carried_member
    simp only [List.mem_cons, List.not_mem_nil, or_false] at carried_member
    rcases carried_member with rfl | rfl | rfl
    · rfl
    · cases outlet.name <;> rfl
    · rfl
  have kind_eq := congrArg TemplateAttribute.isLoop carried_eq
  exact kind_eq.symm.trans loopless

end Outlet

/-! ## The whole file -/

/-- A file with one outlet is annotated. -/
theorem exists_annotated {source helperImport : String} {file : ComponentFile} {template : Block}
    {opening : OpeningTag} {leaves : List Bool}
    (tags : (!hasSlotTag source.toList || !hasTemplateTag source.toList) = false)
    (found : ComponentFile.read source = .ok file) (template_eq : file.template = some template)
    (shape : (fun nodes => (allOutlets nodes).map fun outlet =>
        (outlet.opening, (significant outlet.children).map isLeaf)) <$>
      forest template.openEnd template.content = .ok [(opening, leaves)])
    (editable : (forest template.openEnd template.content >>= fun nodes =>
      annotationEdits file (allOutlets nodes) helperImport).isOk) :
    ∃ out nodes outlet edits, annotate source helperImport = .ok (some out) ∧
      forest template.openEnd template.content = .ok nodes ∧
      annotationEdits file (allOutlets nodes) helperImport = .ok edits ∧
      allOutlets nodes = [outlet] ∧ outlet.opening = opening ∧
      (significant outlet.children).map isLeaf = leaves := by
  obtain ⟨edits, edits_eq⟩ := exists_eq_ok _ editable
  obtain ⟨nodes, forest_eq, edits_eq⟩ := bind_eq_ok.mp edits_eq
  rw [forest_eq] at shape
  obtain ⟨outlet, outlets_eq, outlet_eq⟩ := List.map_eq_singleton_iff.mp (Except.ok.inj shape)
  obtain ⟨opening_eq, leaves_eq⟩ := Prod.mk.inj outlet_eq
  obtain ⟨out, changes, annotated, -⟩ :=
    exists_annotate tags found template_eq forest_eq (by rw [outlets_eq]; rfl) edits_eq
  exact ⟨out, nodes, outlet, edits, annotated, forest_eq, edits_eq, outlets_eq, opening_eq,
    leaves_eq⟩

/-- Where an outlet with content loops, what stands between its markers in an annotated file is in
one element with that loop, and with no other one, exactly when there are several nodes or a lone
element that is no outlet and has no loop by itself, and the loop has no double quote. -/
theorem annotate_inLoop {source helperImport out : String}
    (annotated : annotate source helperImport = .ok (some out)) :
    ∃ file template nodes, ComponentFile.read source = .ok file ∧
      file.template = some template ∧ forest template.openEnd template.content = .ok nodes ∧
      ∀ outlet ∈ allOutlets nodes, ∀ loop ∈ outlet.loop?, significant outlet.children ≠ [] →
        (∃ closing ∈ outlet.closing, ∃ content, outlet.Shows out content ∧
          (outlet.InLoop source closing loop content ↔
            outlet.TakesLoop ∧ '"' ∉ loop.render.toList)) ∧
        (outlet.name.Quotable → ∃ attributes, ReadsAsBox outlet.openingText attributes false ∧
          ∀ attr ∈ attributes, attr.isLoop = false) := by
  rcases annotate_steps source helperImport with
    nothing | ⟨error, failed⟩ | ⟨error, failed⟩ |
      ⟨file, template, nodes, edits, tags, found, template_eq, forest_eq, some_outlet, edits_eq⟩
  · rw [annotated] at nothing
    cases nothing
  · rw [annotated] at failed
    cases failed
  · rw [annotated] at failed
    cases failed
  obtain ⟨made, changes, made_eq, changed⟩ :=
    exists_annotate tags found template_eq forest_eq some_outlet edits_eq
  obtain rfl : out = made := by
    rw [annotated] at made_eq
    exact Option.some.inj (Except.ok.inj made_eq)
  refine ⟨file, template, nodes, found, template_eq, forest_eq,
    fun outlet member loop looped filled => ?_⟩
  obtain ⟨opened, closing, stands⟩ :=
    stands_of_read found template_eq forest_eq edits_eq member filled
  refine ⟨⟨closing, stands.closed, outlet.shown source closing,
    changed.shows found template_eq forest_eq member filled stands, ?_⟩, fun quotable => ?_⟩
  · obtain ⟨-, ancestors, occurs⟩ := occurs_of_mem_allOutlets nodes member
    obtain ⟨before, after, bytes_eq, place_eq⟩ := exists_bytes_eq found template_eq
    rw [place_eq] at forest_eq
    exact Outlet.inLoop_shown_iff filled looped stands fun child children span held =>
      exists_isSpelled bytes_eq forest_eq (.inside occurs held)
  · obtain ⟨attributes, reads, loopless⟩ := Outlet.loopless_openingText quotable
    rw [opened] at reads
    exact ⟨attributes, reads, loopless⟩

/-- An element and an interpolation in one loop. -/
theorem annotate_inLoop_severalNodes :
    let source := "<template><slot v-for='x in xs'><b/>\x7b\x7b x \x7d\x7d</slot></template>"
    ∃ out, annotate source "f" = .ok (some out) ∧
      ∃ file template nodes outlet closing content, ComponentFile.read source = .ok file ∧
        file.template = some template ∧ forest template.openEnd template.content = .ok nodes ∧
        outlet ∈ allOutlets nodes ∧ outlet.Shows out content ∧
        outlet.InLoop source closing ⟨"x", "xs"⟩ content := by
  intro source
  let template : Block := ⟨[], "<slot v-for='x in xs'><b/>\x7b\x7b x \x7d\x7d</slot>", 10⟩
  let opening : OpeningTag := ⟨"slot", [⟨.directive, "for", some "x in xs"⟩], false, ⟨10, 32⟩⟩
  have found : ComponentFile.read source = .ok ⟨some template, none, none, none⟩ :=
    eq_ok_of_toOption (by decide +kernel)
  have shape : (fun nodes => (allOutlets nodes).map fun outlet =>
        (outlet.opening, (significant outlet.children).map isLeaf)) <$>
      forest template.openEnd template.content = .ok [(opening, [false, true])] :=
    eq_ok_of_toOption (by decide +kernel)
  obtain ⟨out, nodes, outlet, -, annotated, forest_eq, -, outlets_eq, opening_eq, leaves_eq⟩ :=
    @exists_annotated source "f" _ template _ _ (by decide +kernel) found rfl shape
      (by decide +kernel)
  have looped : outlet.loop? = some ⟨"x", "xs"⟩ := by
    rw [Outlet.loop?, opening_eq]
    decide +kernel
  obtain ⟨first, second, children_eq⟩ :
      ∃ first second, significant outlet.children = [first, second] := by
    have two := congrArg List.length leaves_eq
    rw [List.length_map] at two
    exact List.length_eq_two.mp two
  refine ⟨out, annotated, ?_⟩
  obtain ⟨file', template', nodes', found', template_eq', forest_eq', each⟩ :=
    annotate_inLoop annotated
  obtain rfl := Except.ok.inj (found.symm.trans found')
  obtain rfl := Option.some.inj template_eq'
  obtain rfl := Except.ok.inj (forest_eq.symm.trans forest_eq')
  have member : outlet ∈ allOutlets nodes := by rw [outlets_eq]; exact List.mem_singleton_self _
  have takes : outlet.TakesLoop := by simp only [Outlet.TakesLoop, children_eq]
  obtain ⟨⟨closing, -, content, shows, loops⟩, -⟩ :=
    each outlet member _ looped (by simp [children_eq])
  exact ⟨_, template, nodes, outlet, closing, content, found, rfl, forest_eq, member, shows,
    loops.mpr ⟨takes, by decide⟩⟩

/-- A lone interpolation is left without the loop. -/
theorem annotate_loneInterpolation :
    let source := "<template><slot v-for=\"x in xs\">\x7b\x7b x \x7d\x7d</slot></template>"
    ∃ out, annotate source "f" = .ok (some out) ∧
      ∃ file template nodes outlet, ComponentFile.read source = .ok file ∧
        file.template = some template ∧ forest template.openEnd template.content = .ok nodes ∧
        outlet ∈ allOutlets nodes ∧ outlet.loop? = some ⟨"x", "xs"⟩ ∧
        significant outlet.children ≠ [] ∧
        ¬∃ closing ∈ outlet.closing, ∃ content, outlet.Shows out content ∧
          outlet.InLoop source closing ⟨"x", "xs"⟩ content := by
  intro source
  let template : Block := ⟨[], "<slot v-for=\"x in xs\">\x7b\x7b x \x7d\x7d</slot>", 10⟩
  let opening : OpeningTag := ⟨"slot", [⟨.directive, "for", some "x in xs"⟩], false, ⟨10, 32⟩⟩
  have found : ComponentFile.read source = .ok ⟨some template, none, none, none⟩ :=
    eq_ok_of_toOption (by decide +kernel)
  have shape : (fun nodes => (allOutlets nodes).map fun outlet =>
        (outlet.opening, (significant outlet.children).map isLeaf)) <$>
      forest template.openEnd template.content = .ok [(opening, [true])] :=
    eq_ok_of_toOption (by decide +kernel)
  obtain ⟨out, nodes, outlet, edits, annotated, forest_eq, edits_eq, outlets_eq, opening_eq,
      leaves_eq⟩ :=
    @exists_annotated source "f" _ template _ _ (by decide +kernel) found rfl shape
      (by decide +kernel)
  have looped : outlet.loop? = some ⟨"x", "xs"⟩ := by
    rw [Outlet.loop?, opening_eq]
    decide +kernel
  obtain ⟨only, children_eq, plain⟩ := List.map_eq_singleton_iff.mp leaves_eq
  have member : outlet ∈ allOutlets nodes := by rw [outlets_eq]; exact List.mem_singleton_self _
  have filled : significant outlet.children ≠ [] := by simp [children_eq]
  refine ⟨out, annotated, _, template, nodes, outlet, found, rfl, forest_eq, member, looped, filled,
    ?_⟩
  rintro ⟨closing, closed, content, -, loops⟩
  obtain ⟨-, closing', stands⟩ := stands_of_read found rfl forest_eq edits_eq member filled
  obtain rfl := Option.some.inj (closed.symm.trans stands.closed)
  refine Outlet.not_inLoop_bare children_eq (fun child children span only_eq => ?_) stands content
    loops
  rw [only_eq] at plain
  cases plain

end IslandSlots
