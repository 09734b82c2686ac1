import IslandSlots.Proofs.Slot.Annotation

/-!
# What stands between the markers

An outlet with content shows it between two markers in an annotated file. Several nodes are in an
element of their own there, and a lone element has the loop of the outlet, if there is one, behind
its name. All the rest is what the outlet holds, with the outlets in it changed.
-/

namespace IslandSlots

open Text Replacement TemplateNode

namespace Outlet

/-- An outlet stands in a file from its opening tag to its closing tag. -/
structure Stands (outlet : Outlet) (file : List UInt8) (closing : Span) : Prop where
  /-- Its opening tag stands where it says. -/
  opening : outlet.opening.Stands file
  /-- It has the closing tag. -/
  closed : outlet.closing = some closing
  /-- The closing tag is not empty. -/
  forward : closing.start < closing.stop
  /-- What it holds is laid out between the two. -/
  inside : Laid file outlet.opening.span.stop closing.start outlet.children

/-- What an outlet holds up to its closing tag, with the outlets in it changed. -/
def held (outlet : Outlet) (source : String) (closing : Span) : List UInt8 :=
  splice ((bytes source).take closing.start) outlet.opening.span.stop
    (orderedAll none outlet.children)

/-- What stands between the markers of an outlet. -/
def shown (outlet : Outlet) (source : String) (closing : Span) : List UInt8 :=
  match significant outlet.children with
  | [_] =>
    splice ((bytes source).take closing.start) outlet.opening.span.stop
      (orderedAll outlet.loop? outlet.children)
  | _ => bytes (contentWrapper outlet.loop?) ++ outlet.held source closing ++ bytes "</div>"

/-- An outlet shows some content in a changed file, between its markers. -/
def Shows (outlet : Outlet) (out : String) (content : List UInt8) : Prop :=
  ∃ front back, bytes out = front ++ bytes (outlet.openingText ++ outlet.marker startAttribute) ++
    content ++ bytes (outlet.marker endAttribute ++ "</div>") ++ back

end Outlet

/-! ## Where an outlet stands -/

namespace TemplateNode

variable {nodes children ancestors : List TemplateNode}

theorem ordered_infix_orderedAll {node : TemplateNode} (loop : Option Binding)
    (member : node ∈ nodes) : ordered loop node <:+: orderedAll loop nodes := by
  induction nodes with
  | nil => cases member
  | cons first nodes induction =>
      rw [orderedAll]
      rcases List.mem_cons.mp member with rfl | later
      · exact (List.prefix_append _ _).isInfix
      · exact (induction later).trans (List.suffix_append _ _).isInfix

theorem exists_orderedAll_infix_ordered (loop : Option Binding) (opening : OpeningTag)
    (children : List TemplateNode) (closing : Option Span) :
    ∃ inner, orderedAll inner children <:+: ordered loop (.element opening children closing) := by
  by_cases slot : opening.tag = slotTag
  · cases closing with
    | none =>
        rw [ordered_unclosed loop children slot]
        exact ⟨none, (List.suffix_cons _ _).isInfix⟩
    | some span =>
        rw [ordered_closed loop children slot]
        exact ⟨_, (List.infix_append _ _ _).trans (List.suffix_cons _ _).isInfix⟩
  · rw [ordered_other loop children slot]
    exact ⟨none, (List.suffix_append _ _).isInfix⟩

/-- The changes for a node that is somewhere in a forest stand together. -/
theorem Occurs.exists_ordered_infix {node : TemplateNode} (occurs : Occurs nodes ancestors node)
    (loop : Option Binding) : ∃ inner, ordered inner node <:+: orderedAll loop nodes := by
  induction occurs with
  | root member => exact ⟨loop, ordered_infix_orderedAll loop member⟩
  | @inside _ children opening closing _ _ member induction =>
      obtain ⟨outer, around⟩ := induction
      obtain ⟨inner, inside⟩ := exists_orderedAll_infix_ordered outer opening children closing
      exact ⟨inner, (ordered_infix_orderedAll inner member).trans (inside.trans around)⟩

theorem orderedAll_significant (loop : Option Binding) (nodes : List TemplateNode) :
    orderedAll loop (significant nodes) = orderedAll loop nodes := by
  induction nodes with
  | nil => rfl
  | cons node nodes induction =>
      rw [significant_cons, orderedAll]
      split
      · rename_i blank
        have plain : node.isLeaf := by
          cases node with
          | element => cases blank
          | _ => rfl
        rw [ordered_leaf loop plain, induction, List.nil_append]
      · rw [orderedAll, induction]

end TemplateNode

/-! ## What stands between the markers -/

/-- The changes to a file are those for its template, in order, and the import. -/
theorem Changed.orderedAll_infix {source out put : String} {place start stop : Nat}
    {roots : List TemplateNode} {changes : List (Replacement UInt8)}
    (changed : Changed source out (insertion place put) (allOutlets roots) changes)
    (laid : Laid (bytes source) start stop roots) (beside : place ≤ start ∨ stop ≤ place) :
    orderedAll none roots <:+: changes := by
  have perm := laid.ordered_perm none
  rw [Outlet.flatMap_loopInsertions_none, List.nil_append] at perm
  obtain ⟨others, inside, others_perm, ordered⟩ :=
    exists_ordered_insertion (laid.inOrder none) beside put
  have same : changes = others := by
    refine eq_of_perm (changed.all.trans ?_) changed.ordered ordered
      fun change member => (changed.inside change member).1
    exact ((others_perm.trans (perm.append_right _))).symm
  rwa [same]

namespace Outlet

variable {outlet : Outlet} {source out : String} {closing : Span}

/-- The changes for an outlet with a closing tag, and for all it holds, by their places. -/
theorem ordered_eq (slot : outlet.opening.tag = slotTag) (closed : outlet.closing = some closing)
    (loop : Option Binding) :
    TemplateNode.ordered loop (.element outlet.opening outlet.children outlet.closing) =
      outlet.opening.span.replacedBy outlet.openingText ::
        (outlet.beforeContent ++ orderedAll outlet.loneLoop? outlet.children ++
          (outlet.behindContent closing ++ [closing.replacedBy "</div>"])) := by
  obtain ⟨opening, children, span⟩ := outlet
  obtain rfl : span = some closing := closed
  exact ordered_closed loop children slot closing

/-- What is put around the content of an outlet is the markers and what they show beside it. -/
theorem exists_shown_eq (filled : significant outlet.children ≠ []) (source : String)
    (closing : Span) :
    ∃ before behind, outlet.beforeContent = [insertion outlet.opening.span.stop before] ∧
      outlet.behindContent closing = [insertion closing.start behind] ∧
      bytes before ++ splice ((bytes source).take closing.start) outlet.opening.span.stop
          (orderedAll outlet.loneLoop? outlet.children) ++ bytes behind =
        bytes (outlet.marker startAttribute) ++ outlet.shown source closing ++
          bytes (outlet.marker endAttribute) := by
  rw [beforeContent, behindContent, loneLoop?, shown]
  rcases found : significant outlet.children with _ | ⟨only, _ | ⟨second, rest⟩⟩
  · exact absurd found filled
  · exact ⟨_, _, rfl, rfl, rfl⟩
  · refine ⟨_, _, rfl, rfl, ?_⟩
    simp only [bytes_append, List.append_assoc]
    rfl

/-- An outlet with content shows it between its markers. -/
theorem shows_of_infix {changes : List (Replacement UInt8)} {loop : Option Binding}
    (slot : outlet.opening.tag = slotTag) (stands : outlet.Stands (bytes source) closing)
    (filled : significant outlet.children ≠ [])
    (copied : bytes out = splice (bytes source) 0 changes) (ordered : changes.Pairwise Before)
    (block : TemplateNode.ordered loop (.element outlet.opening outlet.children outlet.closing) <:+:
      changes) : outlet.Shows out (outlet.shown source closing) := by
  obtain ⟨before, behind, before_eq, behind_eq, shown_eq⟩ := exists_shown_eq filled source closing
  obtain ⟨earlier, later, changes_eq⟩ := block
  rw [ordered_eq slot stands.closed, before_eq, behind_eq] at changes_eq
  have bounds : ∀ change ∈ orderedAll outlet.loneLoop? outlet.children,
      change.start ≤ change.stop ∧ change.stop ≤ closing.start := fun change member =>
    have between := (stands.inside.inOrder _).between change member
    ⟨between.forward, between.upper⟩
  have after : ∀ change ∈ later, closing.start ≤ change.start := by
    rw [← changes_eq] at ordered
    intro change member
    have apart := (List.pairwise_append.mp ordered).2.2 (closing.replacedBy "</div>") (by simp)
      change member
    exact Nat.le_trans (Nat.le_of_lt stands.forward) apart.1
  obtain ⟨front, back, spliced⟩ := @splice_enclosed UInt8 (bytes source)
    (bytes outlet.openingText) (bytes before) (bytes behind) (bytes "</div>") 0
    outlet.opening.span.start outlet.opening.span.stop closing.start closing.stop earlier _ later
    stands.inside.le bounds after
  refine ⟨front, back, ?_⟩
  calc
    bytes out = splice (bytes source) 0 changes := copied
    _ = front ++ bytes outlet.openingText ++ (bytes before ++
          splice ((bytes source).take closing.start) outlet.opening.span.stop
            (orderedAll outlet.loneLoop? outlet.children) ++ bytes behind) ++
              bytes "</div>" ++ back := by
      rw [← changes_eq]
      simp only [List.append_assoc, List.cons_append, List.nil_append] at spliced ⊢
      exact spliced
    _ = _ := by
      rw [shown_eq]
      simp only [bytes_append, List.append_assoc]

end Outlet

/-! ## A lone element -/

/-- What stands in a file before all changes is copied. -/
theorem Span.Holds.splice_eq {span : Span} {file written : List UInt8}
    {changes : List (Replacement UInt8)} (holds : span.Holds file written)
    (behind : ∀ change ∈ changes, span.stop ≤ change.start) :
    splice file span.start changes = written ++ splice file span.stop changes := by
  obtain ⟨before, after, rfl, rfl⟩ := holds
  rw [splice_eq_append (Nat.le_add_right _ _) behind, ← List.length_append, List.take_left,
    List.drop_left]

/-- A text put inside what stands in a file, before all other changes. -/
theorem Span.Holds.splice_insertion {span : Span} {file first second : List UInt8} {place : Nat}
    {changes : List (Replacement UInt8)} (holds : span.Holds file (first ++ second))
    (place_eq : place = span.start + first.length)
    (behind : ∀ change ∈ changes, span.stop ≤ change.start) (put : String) :
    splice file span.start (insertion place put :: changes) =
      first ++ (bytes put ++ (second ++ splice file span.stop changes)) := by
  obtain ⟨first_holds, second_holds⟩ := holds.split
  have upper : place ≤ span.stop := by
    rw [holds.stop_eq, List.length_append, place_eq]
    omega
  rw [← place_eq] at first_holds second_holds
  calc
    splice file span.start (insertion place put :: changes) =
        first ++ splice file place (insertion place put :: changes) :=
      first_holds.splice_eq (List.forall_mem_cons.mpr ⟨Nat.le_refl place, fun change found =>
        Nat.le_trans upper (behind change found)⟩)
    _ = first ++ (bytes put ++ splice file place changes) := by
      rw [splice, insertion, Nat.sub_self, List.take_zero, List.nil_append]
    _ = first ++ (bytes put ++ (second ++ splice file span.stop changes)) :=
      congrArg (fun rest => first ++ (bytes put ++ rest)) (second_holds.splice_eq behind)

/-- An opening tag with a loop put behind its name. -/
def OpeningTag.looped (opening : OpeningTag) (loop : Binding) (inside : List UInt8) : List UInt8 :=
  charByte '<' :: bytes opening.tag ++ (bytes (" " ++ Outlet.loopAttribute loop) ++ inside)

namespace Outlet

variable {outlet : Outlet} {source : String} {closing : Span} {loop : Binding} {child : OpeningTag}
  {children : List TemplateNode} {span : Option Span} {written : List UInt8}

theorem held_lone (found : significant outlet.children = [.element child children span])
    (other : child.tag ≠ slotTag) :
    outlet.held source closing = splice ((bytes source).take closing.start)
      outlet.opening.span.stop (orderedAll none children) := by
  rw [held, ← orderedAll_significant, found, orderedAll, orderedAll, ordered_other none children other,
    loopInsertions]
  · rw [List.nil_append, List.append_nil]
  · exact fun _ _ _ _ impossible => by cases impossible

theorem shown_lone (found : significant outlet.children = [.element child children span])
    (other : child.tag ≠ slotTag) (looped : outlet.loop? = some loop) :
    outlet.shown source closing = splice ((bytes source).take closing.start)
      outlet.opening.span.stop
      (insertion (child.span.start + 1 + Text.byteLength child.tag.toList)
        (" " ++ loopAttribute loop) :: orderedAll none children) := by
  rw [shown, ← orderedAll_significant, found]
  simp only [orderedAll, ordered_other _ children other, looped, loopInsertions, loopText_eq,
    if_neg other, List.cons_append, List.nil_append, List.append_nil]

/-- A lone element is shown as it is held but for the loop in its tag. -/
theorem exists_lone (found : significant outlet.children = [.element child children span])
    (other : child.tag ≠ slotTag) (looped : outlet.loop? = some loop)
    (stands : outlet.Stands (bytes source) closing)
    (holds : child.span.Holds (bytes source) (charByte '<' :: bytes child.tag ++ written)) :
    ∃ front back, outlet.opening.span.stop + front.length = child.span.start ∧
      outlet.held source closing =
        front ++ (charByte '<' :: bytes child.tag ++ written) ++ back ∧
      outlet.shown source closing = front ++ child.looped loop written ++ back := by
  obtain ⟨-, -, lower, inner, next, within, closes, upper⟩ :=
    stands.inside.of_mem (mem_of_significant_eq found)
  have bound := Nat.le_trans within.le closes.le
  have later : ∀ change ∈ orderedAll none children, child.span.stop ≤ change.start :=
    fun change found => ((within.inOrder none).between change found).lower
  have kept := holds.take (Nat.le_trans bound upper)
  rw [held_lone found other, shown_lone found other looped]
  generalize (bytes source).take closing.start = file at kept ⊢
  generalize orderedAll none children = changes at later ⊢
  obtain ⟨front, front_length, gap⟩ := kept.exists_front lower
  have name_end : child.span.start + 1 + byteLength child.tag.toList =
      child.span.start + (charByte '<' :: bytes child.tag).length := by
    rw [List.length_cons, bytes, length_encode, Nat.add_assoc, Nat.add_comm 1]
  have stop_eq := kept.stop_eq
  have behind_start : ∀ change ∈ changes, child.span.start ≤ change.start := fun change found =>
    Nat.le_trans (by omega) (later change found)
  refine ⟨front, splice file child.span.stop changes, front_length, ?_, ?_⟩
  · calc
      splice file outlet.opening.span.stop changes =
          front ++ splice file child.span.start changes := gap.splice_eq behind_start
      _ = front ++ (charByte '<' :: bytes child.tag ++ written) ++
          splice file child.span.stop changes := by
        rw [kept.splice_eq later]
        exact (List.append_assoc _ _ _).symm
  · generalize child.span.start + 1 + byteLength child.tag.toList = place at name_end ⊢
    have behind_gap : ∀ change ∈ insertion place (" " ++ loopAttribute loop) :: changes,
        child.span.start ≤ change.start :=
      List.forall_mem_cons.mpr ⟨name_end ▸ Nat.le_add_right _ _, behind_start⟩
    calc
      splice file outlet.opening.span.stop
            (insertion place (" " ++ loopAttribute loop) :: changes) =
          front ++ splice file child.span.start
            (insertion place (" " ++ loopAttribute loop) :: changes) :=
        gap.splice_eq behind_gap
      _ = front ++ child.looped loop written ++ splice file child.span.stop changes := by
        rw [kept.splice_insertion name_end later]
        simp only [OpeningTag.looped, List.append_assoc]

end Outlet

/-! ## Outlets of a file -/

namespace Outlet

variable {outlet : Outlet}

/-- An outlet that has edits and is more than its opening tag has a closing tag. -/
theorem exists_closing {edits : List (Edit UInt8)} (made : outlet.edits = .ok edits)
    (opened : outlet.opening.selfClosing = false) : ∃ closing, outlet.closing = some closing := by
  rw [Outlet.edits] at made
  obtain ⟨found, -, made⟩ := bind_eq_ok.mp made
  rw [opened] at made
  cases closing_eq : outlet.closing with
  | none =>
      rw [closing_eq] at made
      cases made
  | some closing => exact ⟨closing, rfl⟩

theorem exists_edits {outlets : List Outlet} {edits : List (List (Edit UInt8))}
    (found : outlets.mapM Outlet.edits = .ok edits) (member : outlet ∈ outlets) :
    ∃ made, outlet.edits = .ok made := by
  induction outlets generalizing edits with
  | nil => cases member
  | cons first outlets induction =>
      rw [List.mapM_cons] at found
      obtain ⟨made, first_eq, found⟩ := bind_eq_ok.mp found
      obtain ⟨rest, rest_eq, -⟩ := bind_eq_ok.mp found
      rcases List.mem_cons.mp member with rfl | later
      · exact ⟨made, first_eq⟩
      · exact induction rest_eq later

end Outlet

/-- In a file that has edits an outlet with content stands from its opening to its closing tag. -/
theorem stands_of_read {source helperImport : String} {file : ComponentFile}
    {template : Block} {nodes : List TemplateNode} {edits : List (Edit UInt8)} {outlet : Outlet}
    (found : ComponentFile.read source = .ok file) (template_eq : file.template = some template)
    (forest_eq : forest template.openEnd template.content = .ok nodes)
    (edits_eq : annotationEdits file (allOutlets nodes) helperImport = .ok edits)
    (member : outlet ∈ allOutlets nodes) (filled : significant outlet.children ≠ []) :
    outlet.opening.selfClosing = false ∧ ∃ closing, outlet.Stands (bytes source) closing := by
  obtain ⟨roots, laid, rfl⟩ := laid_of_read found template_eq forest_eq
  obtain ⟨all_edits, all_edits_eq, -⟩ := bind_eq_ok.mp edits_eq
  obtain ⟨outlet_edits, outlet_edits_eq⟩ := Outlet.exists_edits all_edits_eq member
  rw [allOutlets_significant] at member
  obtain ⟨stands, whole, inner, next, inside, closes⟩ := laid.outlet member
  have opened : outlet.opening.selfClosing = false := by
    refine Bool.eq_false_iff.mpr fun selfClosing => ?_
    rw [(whole selfClosing).1] at filled
    exact filled rfl
  obtain ⟨closing, closed⟩ := Outlet.exists_closing outlet_edits_eq opened
  rw [closed] at closes
  cases closes with
  | closing holds spelled =>
      exact ⟨opened, closing, stands, closed, lt_of_isClosing holds spelled, inside⟩

/-- In an annotated file every outlet with content shows it. -/
theorem Changed.shows {source helperImport out : String} {file : ComponentFile} {template : Block}
    {nodes : List TemplateNode} {changes : List (Replacement UInt8)} {outlet : Outlet}
    {closing : Span} (found : ComponentFile.read source = .ok file)
    (template_eq : file.template = some template)
    (forest_eq : forest template.openEnd template.content = .ok nodes)
    (changed : Changed source out (importInsertion file helperImport) (allOutlets nodes) changes)
    (member : outlet ∈ allOutlets nodes) (filled : significant outlet.children ≠ [])
    (stands : outlet.Stands (bytes source) closing) :
    outlet.Shows out (outlet.shown source closing) := by
  obtain ⟨slot, ancestors, occurs⟩ := occurs_of_mem_allOutlets nodes member
  obtain ⟨outer, block⟩ := occurs.exists_ordered_infix none
  obtain ⟨roots, laid, rfl⟩ := laid_of_read found template_eq forest_eq
  obtain ⟨place, put, import_eq, -, beside⟩ :=
    exists_importInsertion found template_eq helperImport
  rw [import_eq, allOutlets_significant] at changed
  rw [orderedAll_significant] at block
  exact Outlet.shows_of_infix slot stands filled changed.copied changed.ordered
    (block.trans (changed.orderedAll_infix laid beside))

end IslandSlots
