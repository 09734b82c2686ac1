import IslandSlots.Proofs.Render.Spine

/-!
# End tags of outer elements

What an end tag does when elements that need none are open inside its own element. The elements
that need no end tag are all ended at once, up to the first node that needs one. The end tag then
finds its element if that needs an end tag; an element that does not was ended with the others.
-/

namespace IslandSlots

namespace Kind

theorem isImplied_of_hasTag {tag : String} {kind : Kind} (tagged : kind.hasTag tag) :
    kind.isImplied = Tag.hasOptionalEnd tag := by
  obtain ⟨attrs, rfl⟩ := eq_of_hasTag tagged
  rfl

end Kind

namespace Builder

/-- Open nodes that need no end tag are ended with what is around them. -/
theorem dropImplied_append {tree : Tree} {inner : List Nat}
    (implied : ∀ node ∈ inner, (tree.kind node).isImplied) (outer : List Nat) :
    dropImplied tree (inner ++ outer) = dropImplied tree outer := by
  induction inner with
  | nil => rfl
  | cons node inner induction =>
      rw [List.cons_append, dropImplied_cons, if_pos (implied node List.mem_cons_self)]
      exact induction fun node found => implied node (List.mem_cons_of_mem _ found)

/-- Ending stops at the first node that needs an end tag. -/
theorem isImplied_dropImplied {tree : Tree} (rooted : tree.kind Tree.root = .root)
    (opened : List Nat) :
    (tree.kind ((dropImplied tree opened).headD Tree.root)).isImplied = false := by
  induction opened with
  | nil => simp [dropImplied, rooted, Kind.isImplied]
  | cons node outer induction =>
      rw [dropImplied_cons]
      split
      · exact induction
      · rename_i needed
        simpa using needed

theorem Reached.kind_root {builder : Builder} (reached : builder.Reached) :
    builder.tree.kind Tree.root = .root := by
  obtain ⟨spine, rfl, grounded⟩ := reached.exists_spine
  rw [spine.kind_root, grounded]

/-- When the open elements inside the innermost element of a tag need no end tag, the end tag of
that element closes it and them if it stands right inside it or the element needs its end tag, and
else it is refused. -/
theorem Reached.closing_eq {builder : Builder} (reached : builder.Reached) (offset : Nat)
    {inner outer : List Nat} {target : Nat} {tag attrs : String}
    (opened : builder.opened = inner ++ target :: outer)
    (target_eq : builder.tree.kind target = .element tag attrs)
    (implied : ∀ node ∈ inner, (builder.tree.kind node).isImplied)
    (other : ∀ node ∈ inner, (builder.tree.kind node).hasTag tag = false) :
    builder.token offset (.closing tag) =
      if inner = [] ∨ Tag.hasOptionalEnd tag = false then .ok ⟨builder.tree, outer⟩
      else
        .error (.malformed (.unexpectedEnd tag
          (builder.tree.kind ((dropImplied builder.tree outer).headD Tree.root))) offset) := by
  have tagged : (builder.tree.kind target).hasTag tag := by simp [target_eq, Kind.hasTag]
  have ended_eq : builder.endImplied.opened = dropImplied builder.tree (target :: outer) := by
    rw [endImplied, opened, dropImplied_append implied]
  cases inner with
  | nil =>
      have here : builder.isInside tag := by
        simpa [isInside_eq, currentKind, current, opened] using tagged
      rw [if_pos (.inl rfl), Builder.token, closeTag, if_pos here, if_pos here, opened]
      rfl
  | cons node inner =>
      have inside : ¬builder.isInside tag := by
        simp [isInside_eq, currentKind, current, opened, other node List.mem_cons_self]
      rw [Builder.token, closeTag, if_neg inside]
      cases optional : Tag.hasOptionalEnd tag with
      | true =>
          have target_implied : (builder.tree.kind target).isImplied := by
            rw [Kind.isImplied_of_hasTag tagged, optional]
          rw [dropImplied_cons, if_pos target_implied] at ended_eq
          -- The element is ended with the others, and so is every other one of the tag.
          have needed := isImplied_dropImplied reached.kind_root outer
          have outside : ¬builder.endImplied.isInside tag := by
            intro found
            rw [isInside_eq, currentKind, current, ended_eq] at found
            have ended := (Kind.isImplied_of_hasTag found).trans optional
            exact Bool.false_ne_true (needed.symm.trans ended)
          rw [if_neg outside, if_neg (by simp), currentKind, current, ended_eq]
          rfl
      | false =>
          have needed : ¬(builder.tree.kind target).isImplied := by
            rw [Kind.isImplied_of_hasTag tagged, optional]
            exact Bool.false_ne_true
          rw [dropImplied_cons, if_neg needed] at ended_eq
          have here : builder.endImplied.isInside tag := by
            rw [isInside_eq, currentKind, current, ended_eq]
            exact tagged
          rw [if_pos here, if_pos (.inr rfl), ended_eq]
          rfl

/-- The state after the start tags of a list, of an item in it and of a paragraph in the item. -/
def inParagraph : Builder where
  tree := ⟨#[⟨.root, none, #[1]⟩, ⟨.element "ul" "", some 0, #[2]⟩,
    ⟨.element "li" "", some 1, #[3]⟩, ⟨.element "p" "", some 2, #[]⟩]⟩
  opened := [3, 2, 1]

theorem reached_inParagraph : inParagraph.Reached := by
  have list : Reached ⟨⟨#[⟨.root, none, #[1]⟩, ⟨.element "ul" "", some 0, #[]⟩]⟩, [1]⟩ :=
    .token 0 (.opening "ul" "" false) .start rfl
  have item : Reached ⟨⟨#[⟨.root, none, #[1]⟩, ⟨.element "ul" "", some 0, #[2]⟩,
      ⟨.element "li" "", some 1, #[]⟩]⟩, [2, 1]⟩ :=
    .token 0 (.opening "li" "" false) list rfl
  exact .token 0 (.opening "p" "" false) item rfl

/-- The end tag of the list closes the item and the paragraph too. -/
theorem closing_list_inParagraph :
    inParagraph.Reached ∧ inParagraph.opened = [3, 2] ++ [1] ∧
      inParagraph.tree.kind 1 = .element "ul" "" ∧
      (∀ node ∈ [3, 2], (inParagraph.tree.kind node).isImplied) ∧
      (∀ node ∈ [3, 2], (inParagraph.tree.kind node).hasTag "ul" = false) ∧
      inParagraph.token 0 (.closing "ul") = .ok ⟨inParagraph.tree, []⟩ := by
  have implied : ∀ node ∈ [3, 2], (inParagraph.tree.kind node).isImplied := by decide
  have other : ∀ node ∈ [3, 2], (inParagraph.tree.kind node).hasTag "ul" = false := by decide
  refine ⟨reached_inParagraph, rfl, rfl, implied, other, ?_⟩
  have opened : inParagraph.opened = [3, 2] ++ 1 :: [] := rfl
  rw [reached_inParagraph.closing_eq 0 opened rfl implied other, if_pos (.inr (by decide))]

/-- The end tag of an item is refused where a paragraph is open in the item. -/
theorem closing_item_refused :
    inParagraph.Reached ∧
      ∃ inner target outer attrs, inParagraph.opened = inner ++ target :: outer ∧
        inParagraph.tree.kind target = .element "li" attrs ∧
        (∀ node ∈ inner, (inParagraph.tree.kind node).isImplied) ∧
        (∀ node ∈ inner, (inParagraph.tree.kind node).hasTag "li" = false) ∧
        ∀ offset after, inParagraph.token offset (.closing "li") ≠ .ok after := by
  refine ⟨reached_inParagraph, [3], 2, [1], "", rfl, rfl, by decide, by decide, ?_⟩
  intro offset after taken
  cases taken

end Builder

end IslandSlots
