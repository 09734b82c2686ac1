import IslandSlots.Proofs.Template.Standing

/-!
# The spans of a forest

The tags of a forest, in the order of a walk through it, stand in the template one behind the other.
Each of them is spelled there as the tag of its element, and an element without a closing tag is
either nothing but its opening tag or inside an element that has a closing tag.
-/

namespace IslandSlots

open Text

/-- The bytes of a template in a span of a file that has `base` bytes before the template. -/
def Span.slice (span : Span) (base : Nat) (template : String) : List UInt8 :=
  ((bytes template).drop (span.start - base)).take (span.stop - span.start)

/-- What stands in a file is the slice of the template there. -/
theorem Span.Holds.slice_eq {span : Span} {base : Nat} {template : String}
    {written : List UInt8} (holds : span.Holds (List.replicate base 0 ++ bytes template) written)
    (later : base ≤ span.start) : span.slice base template = written := by
  obtain ⟨before, after, file_eq, rfl⟩ := holds
  have dropped := congrArg (List.drop before.length) file_eq
  rw [List.drop_append, List.length_replicate, List.append_assoc, List.drop_left,
    List.drop_eq_nil_of_le (by simpa using later), List.nil_append] at dropped
  rw [Span.slice]
  simp only [dropped]
  simp

namespace TemplateNode

mutual

/-- The spans of the tags of a node, those of what it holds between its own two. -/
def spans : TemplateNode → List Span
  | .element opening children closing => opening.span :: allSpans children ++ closing.toList
  | _ => []

/-- The spans of the tags of nodes in order. -/
def allSpans : List TemplateNode → List Span
  | [] => []
  | node :: nodes => spans node ++ allSpans nodes

end

/-- A node is somewhere in a forest, inside the given elements, the innermost first. -/
inductive Occurs (forest : List TemplateNode) : List TemplateNode → TemplateNode → Prop where
  | root {node : TemplateNode} : node ∈ forest → Occurs forest [] node
  | inside {ancestors children : List TemplateNode} {opening : OpeningTag} {closing : Option Span}
      {node : TemplateNode} : Occurs forest ancestors (.element opening children closing) →
        node ∈ children → Occurs forest (.element opening children closing :: ancestors) node

/-- Whether a node is an element with a closing tag. -/
def isClosed : TemplateNode → Bool
  | .element _ _ closing => closing.isSome
  | _ => false

/-- The tags of an element that is inside the given ones, as they stand in a template. -/
structure TagsStand (base : Nat) (template : String) (ancestors : List TemplateNode)
    (opening : OpeningTag) (children : List TemplateNode) (closing : Option Span) : Prop where
  /-- The opening tag is spelled with the name of the element. -/
  opens : TemplatePiece.IsOpening opening.tag (opening.span.slice base template)
  /-- So is the closing tag. -/
  closes : ∀ span ∈ closing, TemplatePiece.IsClosing opening.tag (span.slice base template)
  /-- An element that is nothing but its opening tag holds nothing and has no closing tag. -/
  whole : opening.selfClosing → children = [] ∧ closing = none
  /-- Any other element without a closing tag is inside an element that has one. -/
  enclosed : opening.selfClosing = false → closing = none → ∃ outer ∈ ancestors, outer.isClosed

/-! ## Places in a forest -/

section Places

variable {first second nodes ancestors children : List TemplateNode} {node : TemplateNode}

theorem Occurs.mono (occurs : Occurs first ancestors node) (all : first ⊆ second) :
    Occurs second ancestors node := by
  induction occurs with
  | root member => exact .root (all member)
  | inside _ member induction => exact .inside induction member

theorem occurs_append : Occurs (first ++ second) ancestors node ↔
    Occurs first ancestors node ∨ Occurs second ancestors node := by
  constructor
  · intro occurs
    induction occurs with
    | root member => exact (List.mem_append.mp member).imp .root .root
    | inside _ member induction => exact induction.imp (.inside · member) (.inside · member)
  · rintro (occurs | occurs)
    · exact occurs.mono (List.subset_append_left first second)
    · exact occurs.mono (List.subset_append_right first second)

/-- What occurs in an element is the element or occurs in what it holds. -/
theorem occurs_element {opening : OpeningTag} {closing : Option Span}
    (occurs : Occurs [.element opening children closing] ancestors node) :
    (ancestors = [] ∧ node = .element opening children closing) ∨
      ∃ inner, Occurs children inner node ∧
        ancestors = inner ++ [.element opening children closing] := by
  induction occurs with
  | root member => exact .inl ⟨rfl, List.mem_singleton.mp member⟩
  | inside _ member induction =>
      rcases induction with ⟨rfl, same⟩ | ⟨inner, occurs, rfl⟩
      · cases same
        exact .inr ⟨[], .root member, rfl⟩
      · exact .inr ⟨_, .inside occurs member, rfl⟩

/-- What is listed of a node in a forest is listed of the forest, if what an element holds is listed
of the element. -/
theorem Occurs.subset_flatMap {α : Type} {listed : TemplateNode → List α}
    (held : ∀ opening children closing,
      children.flatMap listed ⊆ listed (.element opening children closing))
    (occurs : Occurs nodes ancestors node) : listed node ⊆ nodes.flatMap listed := by
  have of_mem {row : List TemplateNode} {child : TemplateNode} (member : child ∈ row) :
      listed child ⊆ row.flatMap listed :=
    fun _ found => List.mem_flatMap.mpr ⟨child, member, found⟩
  induction occurs with
  | root member => exact of_mem member
  | inside _ member induction =>
      exact List.Subset.trans (List.Subset.trans (of_mem member) (held _ _ _)) induction

theorem allSpans_eq_flatMap (row : List TemplateNode) : allSpans row = row.flatMap spans := by
  induction row with
  | nil => rfl
  | cons first row induction => rw [allSpans, List.flatMap_cons, induction]

/-- The tags of a node in a forest are tags of the forest. -/
theorem Occurs.spans_subset (occurs : Occurs nodes ancestors node) :
    node.spans ⊆ allSpans nodes := by
  rw [allSpans_eq_flatMap]
  refine occurs.subset_flatMap fun opening children closing => ?_
  rw [← allSpans_eq_flatMap, spans]
  exact fun _ found => List.mem_append_left _ (List.mem_cons_of_mem _ found)

theorem not_occurs_nil : ¬Occurs [] ancestors node := by
  intro occurs
  induction occurs with
  | root member => cases member
  | inside _ _ induction => exact induction

theorem eq_of_occurs_leaf {leaf : TemplateNode} (plain : leaf.isLeaf)
    (occurs : Occurs [leaf] ancestors node) : node = leaf := by
  induction occurs with
  | root member => exact List.mem_singleton.mp member
  | inside _ _ induction =>
      subst induction
      cases plain

/-- Every element of a forest that needs a closing tag and has none is inside an element that has
one. -/
def Enclosed (forest : List TemplateNode) : Prop :=
  ∀ ancestors opening children, Occurs forest ancestors (.element opening children none) →
    opening.selfClosing = false → ∃ outer ∈ ancestors, outer.isClosed

theorem Enclosed.append (front : Enclosed first) (back : Enclosed second) :
    Enclosed (first ++ second) :=
  fun ancestors opening children occurs => (occurs_append.mp occurs).elim
    (front ancestors opening children) (back ancestors opening children)

/-- An element with a closing tag encloses all it holds. -/
theorem enclosed_closed (opening : OpeningTag) (children : List TemplateNode) (span : Span) :
    Enclosed [.element opening children (some span)] := by
  intro ancestors inner_opening inner_children occurs _
  rcases occurs_element occurs with ⟨-, same⟩ | ⟨inner, -, rfl⟩
  · cases same
  · exact ⟨_, List.mem_append_right inner List.mem_cons_self, rfl⟩

/-- An element that is nothing but its opening tag needs no closing tag. -/
theorem enclosed_selfClosing {opening : OpeningTag} (whole : opening.selfClosing) :
    Enclosed [.element opening [] none] := by
  intro ancestors inner_opening inner_children occurs opened
  rcases occurs_element occurs with ⟨-, same⟩ | ⟨inner, inside, -⟩
  · cases same
    simp [whole] at opened
  · exact absurd inside not_occurs_nil

theorem enclosed_leaf {leaf : TemplateNode} (plain : leaf.isLeaf) : Enclosed [leaf] := by
  intro ancestors opening children occurs
  have same := eq_of_occurs_leaf plain occurs
  subst same
  cases plain

end Places

/-! ## Forests of pieces -/

/-- A closing tag makes an element with a closing tag. -/
theorem eq_of_closed? {tag : String} {span : Span} {stack outer : List OpenElement}
    {last : List TemplateNode} {node : TemplateNode}
    (found : Nesting.closed? tag span stack last = some (node, outer)) :
    ∃ opening children, node = .element opening children (some span) := by
  induction stack generalizing last with
  | nil => cases found
  | cons inner stack induction =>
      rw [Nesting.closed?] at found
      split at found
      · cases found
        exact ⟨_, _, rfl⟩
      · exact induction found

/-- Whatever comes next, an element outside of all that are open is closed or needs no closing
tag. -/
theorem enclosed_add {nesting after : Nesting} {piece : TemplatePiece}
    (enclosed : Enclosed nesting.roots) (step : nesting.add piece = .ok after) :
    Enclosed after.roots := by
  have put (stack : List OpenElement) {node : TemplateNode} (alone : Enclosed [node]) :
      Enclosed (Nesting.put ⟨stack, nesting.roots⟩ node).roots := by
    cases stack with
    | nil => exact enclosed.append alone
    | cons => exact enclosed
  cases piece with
  | opening tag =>
      rw [Nesting.add] at step
      split at step
      · rename_i whole
        cases step
        exact put nesting.stack (enclosed_selfClosing whole)
      · cases step
        exact enclosed
  | closing tag span =>
      rw [Nesting.add] at step
      split at step
      · rename_i node outer found
        cases step
        obtain ⟨opening, children, rfl⟩ := eq_of_closed? found
        exact put outer (enclosed_closed opening children span)
      · cases step
  | _ =>
      cases step
      exact put nesting.stack (enclosed_leaf rfl)

theorem enclosed_foldlM {nesting after : Nesting} {pieces : List TemplatePiece}
    (enclosed : Enclosed nesting.roots) (steps : pieces.foldlM Nesting.add nesting = .ok after) :
    Enclosed after.roots := by
  induction pieces generalizing nesting with
  | nil =>
      cases steps
      exact enclosed
  | cons piece pieces induction =>
      rw [List.foldlM_cons] at steps
      obtain ⟨next, step, steps⟩ := bind_eq_ok.mp steps
      exact induction (enclosed_add enclosed step) steps

theorem enclosed_of_forest {base : Nat} {template : String} {nodes : List TemplateNode}
    (found : forest base template = .ok nodes) : Enclosed nodes := by
  rw [forest] at found
  obtain ⟨nesting, folded, finished⟩ := bind_eq_ok.mp found
  have enclosed := enclosed_foldlM (fun _ _ _ occurs => absurd occurs not_occurs_nil) folded
  split at finished
  · cases finished
  · rw [Nesting.finish] at finished
    split at finished
    · cases finished
      exact fun ancestors opening children occurs =>
        enclosed ancestors opening children (occurs.mono fun _ member => (List.mem_filter.mp member).1)
    · cases finished

/-! ## The order of spans -/

/-- Spans between two places, one behind the other, each with something in it. -/
structure Ascend (low high : Nat) (spans : List Span) : Prop where
  /-- Each ends before those behind it begin. -/
  apart : spans.Pairwise fun first second => first.stop ≤ second.start
  /-- Each is between the places and not empty. -/
  between : ∀ span ∈ spans, low ≤ span.start ∧ span.start < span.stop ∧ span.stop ≤ high

section Order

variable {low middle high : Nat} {first second : List Span}

theorem ascend_nil : Ascend low high [] :=
  ⟨.nil, List.forall_mem_nil _⟩

theorem Ascend.append (front : Ascend low middle first) (back : Ascend middle high second)
    (lower : low ≤ middle) (upper : middle ≤ high) : Ascend low high (first ++ second) where
  apart := List.pairwise_append.mpr ⟨front.apart, back.apart, fun span found other later =>
    Nat.le_trans (front.between span found).2.2 (back.between other later).1⟩
  between := by
    refine List.forall_mem_append.mpr ⟨fun span found => ?_, fun span found => ?_⟩
    · obtain ⟨begins, filled, ends⟩ := front.between span found
      omega
    · obtain ⟨begins, filled, ends⟩ := back.between span found
      omega

theorem ascend_singleton {span : Span} (filled : span.start < span.stop) :
    Ascend span.start span.stop [span] :=
  ⟨List.pairwise_singleton _ _, List.forall_mem_singleton.mpr ⟨Nat.le_refl _, filled, Nat.le_refl _⟩⟩

end Order

theorem Closes.ascend {file : List UInt8} {tag : String} {place next : Nat} {closing : Option Span}
    (closes : Closes file tag place next closing) : Ascend place next closing.toList := by
  cases closes with
  | missing => exact ascend_nil
  | closing holds spelled => exact ascend_singleton (lt_of_isClosing holds spelled)

section Laid

variable {file : List UInt8} {start stop : Nat} {nodes : List TemplateNode}

/-- Tags of nodes that are laid out ascend. -/
theorem Laid.ascend (laid : Laid file start stop nodes) : Ascend start stop (allSpans nodes) := by
  induction laid with
  | nil => exact ascend_nil
  | @leaf place next stop node nodes plain taken rest induction =>
      have none_here : node.spans = [] := by
        cases node with
        | element => cases plain
        | _ => rfl
      rw [allSpans, none_here]
      exact ascend_nil.append induction (Nat.le_of_lt taken) rest.le
  | element stands _ inside closes rest inner_induction induction =>
      have name := stands.name_lt
      have inner_bound := inside.le
      have closed_bound := closes.le
      rw [allSpans, spans]
      refine Ascend.append ?_ induction (by omega) rest.le
      refine Ascend.append ?_ closes.ascend (by omega) closed_bound
      exact (ascend_singleton (by omega)).append inner_induction (by omega) inner_bound

/-- An element among nodes that are laid out has its tags where they say. -/
theorem Laid.of_mem {opening : OpeningTag} {children : List TemplateNode} {closing : Option Span}
    (laid : Laid file start stop nodes) (member : .element opening children closing ∈ nodes) :
    opening.Stands file ∧ (opening.selfClosing → children = [] ∧ closing = none) ∧
      start ≤ opening.span.start ∧ ∃ inner next, Laid file opening.span.stop inner children ∧
        Closes file opening.tag inner next closing ∧ next ≤ stop := by
  induction laid with
  | nil => cases member
  | leaf plain taken _ induction =>
      rcases List.mem_cons.mp member with rfl | later
      · cases plain
      · obtain ⟨stands, whole, lower, within⟩ := induction later
        exact ⟨stands, whole, by omega, within⟩
  | element stands whole inside closes rest _ induction =>
      have name := stands.name_lt
      have bound := inside.le
      have closed := closes.le
      rcases List.mem_cons.mp member with same | later
      · cases same
        exact ⟨stands, whole, Nat.le_refl _, _, _, inside, closes, rest.le⟩
      · obtain ⟨later_stands, later_whole, lower, within⟩ := induction later
        exact ⟨later_stands, later_whole, by omega, within⟩

/-- So has an element anywhere in them. -/
theorem Laid.of_occurs {ancestors : List TemplateNode} {node : TemplateNode}
    (laid : Laid file start stop nodes) (occurs : Occurs nodes ancestors node) :
    ∃ start stop nodes, Laid file start stop nodes ∧ node ∈ nodes := by
  induction occurs with
  | root member => exact ⟨start, stop, nodes, laid, member⟩
  | inside _ member induction =>
      obtain ⟨_, _, _, outer, outer_member⟩ := induction
      obtain ⟨-, -, -, _, _, inside, -⟩ := outer.of_mem outer_member
      exact ⟨_, _, _, inside, member⟩

end Laid

/-! ## Tags in a template -/

theorem allSpans_significant (nodes : List TemplateNode) :
    allSpans (significant nodes) = allSpans nodes := by
  induction nodes with
  | nil => rfl
  | cons node nodes induction =>
      rw [significant_cons, allSpans]
      split
      · rename_i blank
        have none_here : node.spans = [] := by
          cases node with
          | element => cases blank
          | _ => rfl
        rw [none_here, induction]
        rfl
      · rw [allSpans, induction]

/-- The tags of a forest ascend through its template, stand there as they say, and none that is
needed is missing. -/
theorem forest_spans {base : Nat} {template : String} {nodes : List TemplateNode}
    (found : forest base template = .ok nodes) :
    Ascend base (base + (bytes template).length) (allSpans nodes) ∧
      ∀ ancestors opening children closing,
        Occurs nodes ancestors (.element opening children closing) →
          TagsStand base template ancestors opening children closing := by
  have enclosed := enclosed_of_forest found
  have file_eq : List.replicate base 0 ++ bytes template =
      List.replicate base 0 ++ bytes template ++ [] := (List.append_nil _).symm
  have found_there : forest (List.replicate base (0 : UInt8)).length template = .ok nodes := by
    rwa [List.length_replicate]
  obtain ⟨roots, laid, rfl⟩ := laid_of_forest file_eq found_there
  rw [List.length_replicate] at laid
  refine ⟨by rw [allSpans_significant]; exact laid.ascend, ?_⟩
  intro ancestors opening children closing occurs
  have inside : ∀ span ∈ spans (.element opening children closing), base ≤ span.start := by
    intro span member
    have listed := occurs.spans_subset member
    rw [allSpans_significant] at listed
    exact (laid.ascend.between span listed).1
  rw [spans] at inside
  obtain ⟨_, _, _, around, member⟩ :=
    laid.of_occurs (occurs.mono fun _ found => (List.mem_filter.mp found).1)
  obtain ⟨⟨written, holds, opens⟩, whole, -, inner, next, -, closes, -⟩ := around.of_mem member
  refine ⟨?_, fun span closing_eq => ?_, whole, ?_⟩
  · rwa [holds.slice_eq (inside _ (by simp))]
  · obtain rfl := Option.mem_def.mp closing_eq
    cases closes with
    | closing holds closes => rwa [holds.slice_eq (inside _ (by simp))]
  · rintro opened rfl
    exact enclosed ancestors opening children occurs opened

/-- A closing tag ends two elements that have none of their own. -/
theorem forest_spans_unclosedItem :
    let template := "<ul><li>é<p>b<br></ul >"
    ∃ nodes, forest 5 template = .ok nodes ∧
      allSpans nodes = [⟨5, 9⟩, ⟨9, 13⟩, ⟨15, 18⟩, ⟨19, 23⟩, ⟨23, 29⟩] ∧
      Ascend 5 29 (allSpans nodes) ∧ ∀ ancestors opening children closing,
        Occurs nodes ancestors (.element opening children closing) →
          TagsStand 5 template ancestors opening children closing := by
  intro template
  obtain ⟨nodes, found⟩ := exists_eq_ok (forest 5 template) (by decide +kernel)
  have listed : allSpans <$> forest 5 template =
      .ok [⟨5, 9⟩, ⟨9, 13⟩, ⟨15, 18⟩, ⟨19, 23⟩, ⟨23, 29⟩] :=
    eq_ok_of_toOption (by decide +kernel)
  rw [found] at listed
  have length_eq : (bytes template).length = 24 := by decide +kernel
  have standing := forest_spans found
  rw [length_eq] at standing
  exact ⟨nodes, found, Except.ok.inj listed, standing⟩

end TemplateNode

end IslandSlots
