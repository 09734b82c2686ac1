import IslandSlots.Proofs.Component.Blocks
import IslandSlots.Proofs.Template.Spans
import IslandSlots.Proofs.Text.Splicing
import IslandSlots.Slot.Annotated
import Mathlib.Data.List.Perm.Basic

/-!
# What annotating a file changes

Every slot outlet of the template, whatever it stands in, has its opening tag, its closing tag and
its content changed, and one import is put in. The changes of an outlet go around those of the
outlets it holds, and the loop that it gives to a lone element is inside the tag of that element.
So all of them have an order in which each comes before the next, and the file is copied but for
these changes. The texts that are put in are written out here as they are to stand in the file, and
then they are shown to be those that the edits put in.
-/

namespace IslandSlots

open Replacement TemplateNode

/-! ## The changes -/

/-- A text put for the bytes of a span. -/
def Span.replacedBy (span : Span) (text : String) : Replacement UInt8 :=
  ⟨span.start, span.stop, Text.bytes text⟩

/-- A text put at a place. -/
def insertion (place : Nat) (text : String) : Replacement UInt8 :=
  ⟨place, place, Text.bytes text⟩

namespace Outlet

/-- The loop of an outlet, if it has one that can be read. -/
def loop? (outlet : Outlet) : Option Binding :=
  (outlet.opening.value? .directive "for").bind Binding.parse?

/-- A loop as it stands behind the name in a tag. -/
def loopText (loop : Binding) : String :=
  " v-for=\"" ++ loop.item ++ " in " ++ loop.collection ++ "\""

/-- The marker in front of the content of an outlet. -/
def startMarker (outlet : Outlet) : String :=
  match outlet.name with
  | .fixed name => "<div nuxt-slot-fallback-start=\"" ++ name ++ "\"/>"
  | .computed expression =>
    "<div :nuxt-slot-fallback-start=\"" ++ escapeQuotes expression ++ "\"/>"

/-- The marker behind the content of an outlet. -/
def endMarker (outlet : Outlet) : String :=
  match outlet.name with
  | .fixed name => "<div nuxt-slot-fallback-end=\"" ++ name ++ "\"/>"
  | .computed expression =>
    "<div :nuxt-slot-fallback-end=\"" ++ escapeQuotes expression ++ "\"/>"

/-- The opening tag of an element around content of several nodes. -/
def aroundText : Option Binding → String
  | some loop => "<div" ++ loopText loop ++ " style=\"display: contents;\">"
  | none => "<div style=\"display: contents;\">"

/-- The opening tag in place of that of an outlet. -/
def openingText (outlet : Outlet) : String :=
  (match outlet.name with
    | .fixed name =>
      "<div style=\"display: contents;\" nuxt-ssr-slot-name=\"" ++ name
    | .computed expression =>
      "<div style=\"display: contents;\" :nuxt-ssr-slot-name=\"" ++ escapeQuotes expression) ++
    "\" :nuxt-ssr-slot-data=\"" ++ escapeQuotes (outlet.data outlet.loop?) ++
    if outlet.opening.selfClosing then "\"/>" else "\">"

/-- A loop put right after the name of an element that is no outlet. -/
def loopInsertions : Option Binding → TemplateNode → List (Replacement UInt8)
  | some loop, .element child _ _ =>
    if child.tag = slotTag then []
    else [insertion (child.span.start + 1 + Text.byteLength child.tag.toList) (loopText loop)]
  | _, _ => []

/-- What is put around the content of an outlet that ends where a closing tag stands, and into a
lone element there. -/
def contentChanges (outlet : Outlet) (closing : Span) : List (Replacement UInt8) :=
  match significant outlet.children with
  | [] => []
  | [only] =>
    insertion outlet.opening.span.stop outlet.startMarker ::
      loopInsertions outlet.loop? only ++ [insertion closing.start outlet.endMarker]
  | _ =>
    [insertion outlet.opening.span.stop (outlet.startMarker ++ aroundText outlet.loop?),
      insertion closing.start ("</div>" ++ outlet.endMarker)]

/-- What is changed for an outlet: its opening tag and, if it has a closing tag, that tag and what
is between the two. -/
def changes (outlet : Outlet) : List (Replacement UInt8) :=
  outlet.opening.span.replacedBy outlet.openingText ::
    match outlet.closing with
    | none => []
    | some closing => outlet.contentChanges closing ++ [closing.replacedBy "</div>"]

end Outlet

/-! ## The texts that are put in -/

namespace Outlet

theorem loopText_eq (loop : Binding) : loopText loop = " " ++ loopAttribute loop := by
  rw [← String.toList_inj]
  simp [loopText, loopAttribute, Binding.render]

theorem startMarker_eq (outlet : Outlet) : outlet.startMarker = outlet.marker startAttribute := by
  rw [startMarker, marker, ← String.toList_inj]
  cases outlet.name <;> simp [SlotName.attribute, startAttribute]

theorem endMarker_eq (outlet : Outlet) : outlet.endMarker = outlet.marker endAttribute := by
  rw [endMarker, marker, ← String.toList_inj]
  cases outlet.name <;> simp [SlotName.attribute, endAttribute]

theorem aroundText_eq (loop : Option Binding) : aroundText loop = contentWrapper loop := by
  rw [← String.toList_inj]
  cases loop <;> simp [aroundText, contentWrapper, loopText_eq, displayContents]

theorem openingText_eq_wrapper (outlet : Outlet) :
    outlet.openingText =
      outlet.wrapper outlet.loop? ++ if outlet.opening.selfClosing then "/>" else ">" := by
  rw [openingText, wrapper, ← String.toList_inj]
  cases outlet.name <;> cases outlet.opening.selfClosing <;>
    simp [SlotName.attribute, displayContents, nameAttribute, dataAttribute]

end Outlet

/-- The import, put into the first script or into a new one in front of the file. -/
def importInsertion (file : ComponentFile) (helperImport : String) : Replacement UInt8 :=
  match file.firstScript? with
  | some script => insertion script.openEnd ("\n" ++ helperImport)
  | none => insertion 0 ("<script setup>\n" ++ helperImport ++ "\n</script>\n")

namespace TemplateNode

section Places

variable {outlet : Outlet}

theorem Occurs.inside_element {children ancestors : List TemplateNode} {node : TemplateNode}
    (occurs : Occurs children ancestors node) (opening : OpeningTag) (closing : Option Span) :
    Occurs [.element opening children closing]
      (ancestors ++ [.element opening children closing]) node := by
  induction occurs with
  | root member => exact .inside (.root (List.mem_singleton.mpr rfl)) member
  | inside _ member induction => exact .inside induction member

mutual

theorem occurs_of_mem_outlets (node : TemplateNode) (member : outlet ∈ node.outlets) :
    outlet.opening.tag = slotTag ∧ ∃ ancestors,
      Occurs [node] ancestors (.element outlet.opening outlet.children outlet.closing) := by
  match node with
  | .element opening children closing =>
      rw [outlets] at member
      rcases List.mem_append.mp member with here | held
      · split at here
        · rename_i slot
          obtain rfl := List.mem_singleton.mp here
          exact ⟨slot, [], .root (List.mem_singleton.mpr rfl)⟩
        · cases here
      · obtain ⟨slot, ancestors, occurs⟩ := occurs_of_mem_allOutlets children held
        exact ⟨slot, _, occurs.inside_element opening closing⟩

/-- Every outlet of a forest is somewhere in it. -/
theorem occurs_of_mem_allOutlets (nodes : List TemplateNode) (member : outlet ∈ allOutlets nodes) :
    outlet.opening.tag = slotTag ∧ ∃ ancestors,
      Occurs nodes ancestors (.element outlet.opening outlet.children outlet.closing) := by
  match nodes with
  | node :: nodes =>
      rw [allOutlets] at member
      rcases List.mem_append.mp member with here | later
      · obtain ⟨slot, ancestors, occurs⟩ := occurs_of_mem_outlets node here
        exact ⟨slot, ancestors, occurs.mono (List.subset_append_left [node] nodes)⟩
      · obtain ⟨slot, ancestors, occurs⟩ := occurs_of_mem_allOutlets nodes later
        exact ⟨slot, ancestors, occurs.mono (List.subset_cons_self node nodes)⟩

end

end Places

theorem allOutlets_eq_flatMap (nodes : List TemplateNode) :
    allOutlets nodes = nodes.flatMap outlets := by
  induction nodes with
  | nil => rfl
  | cons node nodes induction => rw [allOutlets, List.flatMap_cons, induction]

/-- An element of a forest with the tag of an outlet is one of its outlets. -/
theorem Occurs.mem_allOutlets {nodes ancestors children : List TemplateNode} {opening : OpeningTag}
    {closing : Option Span} (occurs : Occurs nodes ancestors (.element opening children closing))
    (slot : opening.tag = slotTag) : ⟨opening, children, closing⟩ ∈ allOutlets nodes := by
  have listed : outlets (.element opening children closing) ⊆ allOutlets nodes := by
    rw [allOutlets_eq_flatMap]
    refine occurs.subset_flatMap fun opening children closing => ?_
    rw [← allOutlets_eq_flatMap, outlets]
    exact List.subset_append_right _ _
  apply listed
  rw [outlets, if_pos slot]
  exact List.mem_append_left _ List.mem_cons_self

/-- The outlets of a forest are the elements named `slot`, whatever they stand in. -/
theorem mem_allOutlets_iff {nodes : List TemplateNode} {outlet : Outlet} :
    outlet ∈ allOutlets nodes ↔ outlet.opening.tag = "slot" ∧ ∃ ancestors,
      Occurs nodes ancestors (.element outlet.opening outlet.children outlet.closing) :=
  ⟨occurs_of_mem_allOutlets nodes, fun ⟨slot, _, occurs⟩ => occurs.mem_allOutlets slot⟩

/-- Every outlet, whatever it stands in, stands in the file with its closing tag and with what it
holds between its tags. -/
theorem Laid.outlet {file : List UInt8} {start stop : Nat} {nodes : List TemplateNode}
    {outlet : Outlet} (laid : Laid file start stop nodes) (member : outlet ∈ allOutlets nodes) :
    outlet.opening.Stands file ∧
      (outlet.opening.selfClosing → outlet.children = [] ∧ outlet.closing = none) ∧
      ∃ inner next, Laid file outlet.opening.span.stop inner outlet.children ∧
        Closes file outlet.opening.tag inner next outlet.closing := by
  obtain ⟨-, ancestors, occurs⟩ := occurs_of_mem_allOutlets nodes member
  obtain ⟨_, _, _, around, here⟩ := laid.of_occurs occurs
  obtain ⟨stands, whole, -, inner, next, inside, closes, -⟩ := around.of_mem here
  exact ⟨stands, whole, inner, next, inside, closes⟩

end TemplateNode

/-! ## The order of the changes -/

namespace Outlet

/-- The loop that is put into a lone element of an outlet. -/
def loneLoop? (outlet : Outlet) : Option Binding :=
  match significant outlet.children with
  | [_] => outlet.loop?
  | _ => none

/-- What is put before the content of an outlet. -/
def beforeContent (outlet : Outlet) : List (Replacement UInt8) :=
  match significant outlet.children with
  | [] => []
  | [_] => [insertion outlet.opening.span.stop (outlet.marker startAttribute)]
  | _ =>
    [insertion outlet.opening.span.stop
      (outlet.marker startAttribute ++ contentWrapper outlet.loop?)]

/-- What is put behind the content of an outlet. -/
def behindContent (outlet : Outlet) (closing : Span) : List (Replacement UInt8) :=
  match significant outlet.children with
  | [] => []
  | [_] => [insertion closing.start (outlet.marker endAttribute)]
  | _ => [insertion closing.start ("</div>" ++ outlet.marker endAttribute)]

end Outlet

namespace TemplateNode

mutual

/-- The changes for a node and for all it holds by their places. An element that is no outlet is
given the loop, if there is one. -/
def ordered (loop : Option Binding) : TemplateNode → List (Replacement UInt8)
  | .element opening children closing =>
    let outlet : Outlet := ⟨opening, children, closing⟩
    if opening.tag = slotTag then
      opening.span.replacedBy outlet.openingText ::
        match closing with
        | none => orderedAll none children
        | some span =>
          outlet.beforeContent ++ orderedAll outlet.loneLoop? children ++
            (outlet.behindContent span ++ [span.replacedBy "</div>"])
    else Outlet.loopInsertions loop (.element opening children closing) ++ orderedAll none children
  | _ => []

/-- The changes for nodes and for all they hold by their places. -/
def orderedAll (loop : Option Binding) : List TemplateNode → List (Replacement UInt8)
  | [] => []
  | node :: nodes => ordered loop node ++ orderedAll loop nodes

end

end TemplateNode

namespace Outlet

theorem flatMap_loopInsertions (loop : Option Binding) (nodes : List TemplateNode) :
    nodes.flatMap (loopInsertions loop) = (significant nodes).flatMap (loopInsertions loop) := by
  induction nodes with
  | nil => rfl
  | cons node nodes induction =>
      rw [List.flatMap_cons, induction, significant_cons]
      split
      · rename_i blank
        have nothing : loopInsertions loop node = [] := by
          cases node with
          | element => cases blank
          | _ => cases loop <;> rfl
        rw [nothing, List.nil_append]
      · rfl

theorem flatMap_loopInsertions_none (nodes : List TemplateNode) :
    nodes.flatMap (loopInsertions none) = [] := by
  induction nodes with
  | nil => rfl
  | cons node nodes induction => exact induction

/-- What is changed between the tags of an outlet is put before its content, into elements there,
and behind it. -/
theorem contentChanges_eq (outlet : Outlet) (closing : Span) :
    outlet.contentChanges closing =
      outlet.beforeContent ++ outlet.children.flatMap (loopInsertions outlet.loneLoop?) ++
        outlet.behindContent closing := by
  rw [contentChanges, beforeContent, behindContent, loneLoop?, flatMap_loopInsertions,
    startMarker_eq, endMarker_eq, aroundText_eq]
  rcases significant outlet.children with _ | ⟨only, _ | ⟨second, rest⟩⟩
  · rfl
  · rw [List.flatMap_singleton]
    rfl
  · simp only [flatMap_loopInsertions_none]
    rfl

/-- Either an outlet has no content to speak of, or something is put at both ends of its content. -/
theorem beforeContent_cases (outlet : Outlet) (closing : Span) :
    outlet.beforeContent = [] ∧ outlet.behindContent closing = [] ∨
      outlet.children ≠ [] ∧ ∃ before behind,
        outlet.beforeContent = [insertion outlet.opening.span.stop before] ∧
        outlet.behindContent closing = [insertion closing.start behind] := by
  have filled {first : TemplateNode} {rest : List TemplateNode}
      (found : significant outlet.children = first :: rest) : outlet.children ≠ [] := by
    intro empty
    rw [empty] at found
    cases found
  rw [beforeContent, behindContent]
  rcases found : significant outlet.children with _ | ⟨only, _ | ⟨second, rest⟩⟩
  · exact .inl ⟨rfl, rfl⟩
  · exact .inr ⟨filled found, _, _, rfl, rfl⟩
  · exact .inr ⟨filled found, _, _, rfl, rfl⟩

end Outlet

/-- A loop that is put into the tag of an element stays inside it. -/
theorem OpeningTag.Stands.inOrder_loopInsertions {file : List UInt8} {opening : OpeningTag}
    (stands : opening.Stands file) (other : opening.tag ≠ slotTag) (loop : Option Binding)
    (children : List TemplateNode) (closing : Option Span) :
    InOrder opening.span.start opening.span.stop
      (Outlet.loopInsertions loop (.element opening children closing)) := by
  cases loop with
  | none => exact inOrder_nil
  | some loop =>
      have name := stands.name_lt
      rw [Outlet.loopInsertions, if_neg other]
      refine ⟨List.pairwise_singleton _ _, List.forall_mem_singleton.mpr ?_⟩
      constructor <;> simp only [insertion] <;> omega

namespace TemplateNode

variable {file : List UInt8}

section Elements

variable {opening : OpeningTag} (loop : Option Binding) (children : List TemplateNode)

theorem ordered_other (other : opening.tag ≠ slotTag) (closing : Option Span) :
    ordered loop (.element opening children closing) =
      Outlet.loopInsertions loop (.element opening children closing) ++ orderedAll none children := by
  cases closing <;> exact if_neg other

theorem ordered_unclosed (slot : opening.tag = slotTag) :
    ordered loop (.element opening children none) =
      opening.span.replacedBy (Outlet.openingText ⟨opening, children, none⟩) ::
        orderedAll none children :=
  if_pos slot

theorem ordered_closed (slot : opening.tag = slotTag) (span : Span) :
    ordered loop (.element opening children (some span)) =
      opening.span.replacedBy (Outlet.openingText ⟨opening, children, some span⟩) ::
        (Outlet.beforeContent ⟨opening, children, some span⟩ ++
          orderedAll (Outlet.loneLoop? ⟨opening, children, some span⟩) children ++
            (Outlet.behindContent ⟨opening, children, some span⟩ span ++
              [span.replacedBy "</div>"])) :=
  if_pos slot

theorem ordered_leaf {node : TemplateNode} (plain : node.isLeaf) : ordered loop node = [] := by
  cases node with
  | element => cases plain
  | _ => rfl

/-- The changes for an outlet and for all it holds are its own and those of the outlets there. -/
theorem ordered_perm_outlet (slot : opening.tag = slotTag) (closing : Option Span)
    (held : ∀ loop, (orderedAll loop children).Perm
      (children.flatMap (Outlet.loopInsertions loop) ++
        (allOutlets children).flatMap Outlet.changes)) :
    (ordered loop (.element opening children closing)).Perm
      (Outlet.changes ⟨opening, children, closing⟩ ++
        (allOutlets children).flatMap Outlet.changes) := by
  cases closing with
  | none =>
      rw [ordered_unclosed loop children slot]
      have plain := held none
      rw [Outlet.flatMap_loopInsertions_none, List.nil_append] at plain
      exact plain.cons _
  | some span =>
      rw [ordered_closed loop children slot, Outlet.changes]
      simp only [Outlet.contentChanges_eq, List.cons_append, List.append_assoc]
      -- The changes of the outlets inside go behind those of this one.
      refine ((((held _).append_right _).trans ?_).append_left _).cons _
      rw [List.append_assoc]
      exact (List.perm_append_comm.trans (.of_eq (List.append_assoc _ _ _))).append_left _

end Elements

/-- The changes for nodes are those of the outlets there and of the elements that are given a
loop. -/
theorem Laid.ordered_perm {start stop : Nat} {nodes : List TemplateNode}
    (laid : Laid file start stop nodes) (loop : Option Binding) :
    (orderedAll loop nodes).Perm (nodes.flatMap (Outlet.loopInsertions loop) ++
      (allOutlets nodes).flatMap Outlet.changes) := by
  induction laid generalizing loop with
  | nil => exact .refl _
  | @leaf _ _ _ node nodes plain _ _ induction =>
      rw [orderedAll, ordered_leaf loop plain, List.nil_append]
      cases node with
      | element => cases plain
      | _ => cases loop <;> exact induction _
  | @element opening children nodes closing _ _ _ _ _ _ _ _ inner_induction induction =>
      have here : (ordered loop (.element opening children closing)).Perm
          (Outlet.loopInsertions loop (.element opening children closing) ++
            (outlets (.element opening children closing)).flatMap Outlet.changes) := by
        rw [outlets]
        by_cases slot : opening.tag = slotTag
        · have nothing : Outlet.loopInsertions loop (.element opening children closing) = [] := by
            cases loop with
            | none => rfl
            | some loop => exact if_pos slot
          rw [nothing, List.nil_append, if_pos slot, List.flatMap_append, List.flatMap_singleton]
          exact ordered_perm_outlet loop children slot closing inner_induction
        · have plain := inner_induction none
          rw [Outlet.flatMap_loopInsertions_none, List.nil_append] at plain
          rw [ordered_other loop children slot, if_neg slot]
          exact plain.append_left _
      refine (here.append (induction loop)).trans ?_
      rw [allOutlets, List.flatMap_cons, List.flatMap_append]
      simp only [List.append_assoc]
      exact (List.perm_append_comm_assoc _ _ _).append_left _

/-- The changes of an outlet and of those it holds have an order. -/
theorem inOrder_outlet {opening : OpeningTag} {children : List TemplateNode}
    {closing : Option Span} {inner next : Nat} (slot : opening.tag = slotTag)
    (stands : opening.Stands file) (inside : Laid file opening.span.stop inner children)
    (closes : Closes file opening.tag inner next closing)
    (held : ∀ loop, InOrder opening.span.stop inner (orderedAll loop children))
    (loop : Option Binding) :
    InOrder opening.span.start next (ordered loop (.element opening children closing)) := by
  have opened : opening.span.start < opening.span.stop := by
    have name := stands.name_lt
    omega
  have opening_change := inOrder_whole opened
    (Text.bytes (Outlet.openingText ⟨opening, children, closing⟩))
  cases closes with
  | missing =>
      rw [ordered_unclosed loop children slot]
      exact opening_change.append (held none) (Nat.le_of_lt opened) inside.le
  | @closing span written holds spelled =>
      have closed := lt_of_isClosing holds spelled
      rw [ordered_closed loop children slot]
      rcases Outlet.beforeContent_cases ⟨opening, children, some span⟩ span with
        ⟨nothing_before, nothing_behind⟩ | ⟨filled, before, behind, before_eq, behind_eq⟩
      · have lower : opening.span.start ≤ span.start :=
          Nat.le_trans (Nat.le_of_lt opened) inside.le
        simp only [nothing_before, nothing_behind, List.nil_append]
        exact (opening_change.append (held _) (Nat.le_of_lt opened) inside.le).append
          (inOrder_whole closed (Text.bytes "</div>")) lower (Nat.le_of_lt closed)
      · simp only [before_eq, behind_eq]
        exact (held _).enclose opened (inside.lt filled) closed _ _ _ _

/-- The changes for nodes that are laid out go from one place to the other. -/
theorem Laid.inOrder {start stop : Nat} {nodes : List TemplateNode}
    (laid : Laid file start stop nodes) (loop : Option Binding) :
    InOrder start stop (orderedAll loop nodes) := by
  induction laid generalizing loop with
  | nil => exact inOrder_nil
  | @leaf place next stop node nodes plain taken _ induction =>
      rw [orderedAll, ordered_leaf loop plain, List.nil_append]
      exact (induction loop).widen (Nat.le_of_lt taken) (Nat.le_refl stop)
  | @element opening children nodes closing inner next stop stands whole inside closes rest
      inner_induction induction =>
      have name := stands.name_lt
      have inner_bound := inside.le
      have closed := closes.le
      have here : InOrder opening.span.start next
          (ordered loop (.element opening children closing)) := by
        by_cases slot : opening.tag = slotTag
        · exact inOrder_outlet slot stands inside closes inner_induction loop
        · rw [ordered_other loop children slot]
          have looped := stands.inOrder_loopInsertions slot loop children closing
          exact (looped.append (inner_induction none) (by omega) inner_bound).widen
            (Nat.le_refl _) closed
      exact here.append (induction loop) (by omega) rest.le

end TemplateNode

/-! ## The edits that make the changes -/

namespace Outlet

theorem eq_loop? {outlet : Outlet} {loop : Option Binding} (found : outlet.loop = .ok loop) :
    loop = outlet.loop? := by
  rw [Outlet.loop] at found
  split at found
  · rename_i missing
    cases found
    rw [loop?, missing]
    rfl
  · rename_i expression expression_eq
    split at found
    · rename_i parsed
      cases found
      rw [loop?, expression_eq]
      exact parsed.symm
    · cases found

theorem map_change_loneLoop (loop : Option Binding) (node : TemplateNode) :
    (loneLoop loop node).map Edit.change = loopInsertions loop node := by
  cases loop with
  | none => rfl
  | some loop =>
      cases node with
      | element child children closing =>
          rw [loneLoop, loopInsertions, loopText_eq, apply_ite (List.map Edit.change)]
          rfl
      | _ => rfl

theorem proper_loneLoop {loop : Option Binding} {node : TemplateNode} :
    ∀ edit ∈ loneLoop loop node, edit.Proper := by
  unfold loneLoop
  split
  · split
    · exact List.forall_mem_nil _
    · exact List.forall_mem_singleton.mpr trivial
  · exact List.forall_mem_nil _

theorem map_change_contentEdits (outlet : Outlet) (closing : Span) :
    ((outlet.contentEdits outlet.loop? outlet.opening.span.stop closing.start).map
      Edit.change).Perm (outlet.contentChanges closing) := by
  simp only [contentEdits, contentChanges, startMarker_eq, endMarker_eq, aroundText_eq]
  rcases significant outlet.children with _ | ⟨only, _ | ⟨second, rest⟩⟩
  · exact .refl _
  · simp only [List.map_append, map_change_loneLoop]
    exact List.perm_middle
  · exact .refl _

theorem proper_contentEdits {outlet : Outlet} {loop : Option Binding} {start stop : Nat} :
    ∀ edit ∈ outlet.contentEdits loop start stop, edit.Proper := by
  rw [contentEdits]
  rcases significant outlet.children with _ | ⟨only, _ | ⟨second, rest⟩⟩
  · exact List.forall_mem_nil _
  · refine List.forall_mem_append.mpr ⟨proper_loneLoop, ?_⟩
    simp [Edit.Proper]
  · simp [Edit.Proper]

/-- The edits for an outlet make its changes. -/
theorem map_change_edits {outlet : Outlet} {edits : List (Edit UInt8)}
    (whole : outlet.opening.selfClosing → outlet.closing = none)
    (found : outlet.edits = .ok edits) : (edits.map Edit.change).Perm outlet.changes := by
  rw [Outlet.edits] at found
  obtain ⟨loop, loop_eq, found⟩ := bind_eq_ok.mp found
  obtain rfl := eq_loop? loop_eq
  rw [changes, openingText_eq_wrapper]
  split at found
  · rename_i selfClosing
    cases found
    rw [whole selfClosing, selfClosing]
    exact .refl _
  · rename_i opened
    rw [if_neg opened]
    cases closing_eq : outlet.closing with
    | none =>
        rw [closing_eq] at found
        cases found
    | some closing =>
        rw [closing_eq] at found
        cases found
        simp only [List.map_cons, List.cons_append, List.nil_append]
        have content := outlet.map_change_contentEdits closing
        exact ((content.cons _).trans (List.perm_append_singleton _ _).symm).cons _

theorem proper_edits {outlet : Outlet} {edits : List (Edit UInt8)}
    (opened : outlet.opening.span.start < outlet.opening.span.stop)
    (closed : ∀ closing ∈ outlet.closing, closing.start < closing.stop)
    (found : outlet.edits = .ok edits) : ∀ edit ∈ edits, edit.Proper := by
  rw [Outlet.edits] at found
  obtain ⟨loop, -, found⟩ := bind_eq_ok.mp found
  split at found
  · cases found
    exact List.forall_mem_singleton.mpr opened
  · split at found
    · cases found
    · rename_i closing closing_eq
      cases found
      refine List.forall_mem_append.mpr ⟨?_, proper_contentEdits⟩
      simpa [Edit.Proper] using ⟨opened, closed closing closing_eq⟩

end Outlet

/-! ## Changes between characters -/

/-- A change of a text begins and ends between its characters and puts text there. -/
structure Replacement.Whole (text : List Char) (change : Replacement UInt8) : Prop where
  /-- It begins between characters. -/
  start : Text.IsCut text change.start
  /-- It ends between characters. -/
  stop : Text.IsCut text change.stop
  /-- What it puts is text. -/
  content : ∃ written, change.content = Text.encode written

section Cuts

variable {text : List Char}

theorem whole_insertion {place : Nat} (cut : Text.IsCut text place) (put : String) :
    (insertion place put).Whole text :=
  ⟨cut, cut, put.toList, rfl⟩

theorem whole_replacedBy {span : Span} (start : Text.IsCut text span.start)
    (stop : Text.IsCut text span.stop) (put : String) : (span.replacedBy put).Whole text :=
  ⟨start, stop, put.toList, rfl⟩

/-- Bytes between two brackets begin and end between characters. -/
theorem Span.Holds.isCut {span : Span} {first last : UInt8} {middle : List UInt8}
    (holds : span.Holds (Text.encode text) (first :: middle ++ [last])) (opens : first < 0x80)
    (closes : last < 0x80) : Text.IsCut text span.start ∧ Text.IsCut text span.stop := by
  obtain ⟨before, after, bytes_eq, rfl⟩ := holds
  have opening_eq : Text.encode text = before ++ first :: (middle ++ [last] ++ after) := by
    simp [bytes_eq]
  have closing_eq : Text.encode text = (before ++ first :: middle) ++ last :: after := by
    simp [bytes_eq]
  have start := Text.isCut_of_ascii opening_eq opens
  have stop := Text.isCut_of_ascii closing_eq closes
  exact ⟨start.1, by simpa [Nat.add_assoc] using stop.2⟩

theorem OpeningTag.Stands.isCut {opening : OpeningTag}
    (stands : opening.Stands (Text.encode text)) :
    Text.IsCut text opening.span.start ∧ Text.IsCut text opening.span.stop := by
  obtain ⟨written, holds, inside, rfl⟩ := stands
  exact holds.isCut (by decide) (by decide)

theorem isCut_of_isClosing {span : Span} {tag : String} {written : List UInt8}
    (holds : span.Holds (Text.encode text) written) (closes : TemplatePiece.IsClosing tag written) :
    Text.IsCut text span.start ∧ Text.IsCut text span.stop := by
  obtain ⟨inside, rfl⟩ := closes
  exact holds.isCut (by decide) (by decide)

/-- Right after the name in an opening tag is between characters. -/
theorem OpeningTag.Stands.isCut_name {opening : OpeningTag}
    (stands : opening.Stands (Text.encode text)) :
    Text.IsCut text (opening.span.start + 1 + Text.byteLength opening.tag.toList) := by
  obtain ⟨written, ⟨before, after, bytes_eq, span_eq⟩, inside, rfl⟩ := stands
  rw [span_eq]
  have bracket_eq : Text.encode text = before ++ Text.charByte '<' ::
      (Text.encode opening.tag.toList ++ inside ++ [Text.charByte '>'] ++ after) := by
    simp [bytes_eq, Text.bytes]
  have named_eq : Text.encode text = (before ++ [Text.charByte '<']) ++
      Text.encode opening.tag.toList ++ (inside ++ [Text.charByte '>'] ++ after) := by
    simp [bytes_eq, Text.bytes]
  have bracket := (Text.isCut_of_ascii bracket_eq (by decide)).2
  have named := Text.IsCut.behind (by simpa using bracket) named_eq
  simpa using named

theorem Outlet.whole_loopInsertions {start stop : Nat} {nodes : List TemplateNode}
    (laid : Laid (Text.encode text) start stop nodes) (loop : Option Binding) :
    ∀ change ∈ nodes.flatMap (loopInsertions loop), change.Whole text := by
  induction laid with
  | nil => exact List.forall_mem_nil _
  | @leaf _ _ _ node _ plain _ _ induction =>
      cases node with
      | element => cases plain
      | _ => cases loop <;> exact induction
  | element stands _ _ _ _ _ induction =>
      rw [List.flatMap_cons]
      refine List.forall_mem_append.mpr ⟨?_, induction⟩
      cases loop with
      | none => exact List.forall_mem_nil _
      | some loop =>
          rw [loopInsertions]
          split
          · exact List.forall_mem_nil _
          · exact List.forall_mem_singleton.mpr (whole_insertion stands.isCut_name _)

/-- The changes of an outlet begin and end between characters. -/
theorem Outlet.whole_changes {outlet : Outlet} {inner next : Nat}
    (stands : outlet.opening.Stands (Text.encode text))
    (inside : Laid (Text.encode text) outlet.opening.span.stop inner outlet.children)
    (closes : Closes (Text.encode text) outlet.opening.tag inner next outlet.closing) :
    ∀ change ∈ outlet.changes, change.Whole text := by
  obtain ⟨start, stop⟩ := stands.isCut
  rw [changes]
  refine List.forall_mem_cons.mpr ⟨whole_replacedBy start stop outlet.openingText, ?_⟩
  generalize closing_eq : outlet.closing = closing at closes
  cases closes with
  | missing => exact List.forall_mem_nil _
  | @closing span written holds spelled =>
      obtain ⟨closing_start, closing_stop⟩ := isCut_of_isClosing holds spelled
      refine List.forall_mem_append.mpr ⟨?_, List.forall_mem_singleton.mpr
        (whole_replacedBy closing_start closing_stop "</div>")⟩
      have looped := whole_loopInsertions inside outlet.loneLoop?
      rw [contentChanges_eq]
      rcases outlet.beforeContent_cases span with
        ⟨before_eq, behind_eq⟩ | ⟨-, before, behind, before_eq, behind_eq⟩
      · simpa only [before_eq, behind_eq, List.nil_append, List.append_nil] using looped
      · rw [before_eq, behind_eq]
        exact List.forall_mem_append.mpr ⟨List.forall_mem_cons.mpr
          ⟨whole_insertion stop before, looped⟩, List.forall_mem_singleton.mpr
            (whole_insertion closing_start behind)⟩

end Cuts

end IslandSlots
