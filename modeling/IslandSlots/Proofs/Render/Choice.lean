import IslandSlots.Proofs.Render.Isolation

/-!
# Conditional expressions

A conditional expression makes a conditional and an alternative next to it, and what its branches
add is below these, when one of the branches is a call that renders, parentheses and sequences
aside. Else its parts are walked in a row, although the walk finds calls that stand deeper in them:
what the branches add is then placed under the node that was open before.
-/

namespace IslandSlots

open Branch

/-! ## The order of the store -/

namespace Entry

/-- Every entry of a stretch that begins at a place has a parent that comes before it, if any. -/
def Rising (place : Nat) (stretch : List Entry) : Prop :=
  ∀ position entry, stretch[position]? = some entry →
    ∀ upper ∈ entry.parent, upper < place + position

theorem Rising.append {place : Nat} {front back : List Entry} (first : Rising place front)
    (second : Rising (place + front.length) back) : Rising place (front ++ back) := by
  intro position entry found upper parent
  rcases Nat.lt_or_ge position front.length with inside | further
  · rw [List.getElem?_append_left inside] at found
    exact first position entry found upper parent
  · rw [List.getElem?_append_right further] at found
    have bound := second _ entry found upper parent
    omega

theorem Rising.cons {place : Nat} {entry : Entry} {stretch : List Entry}
    (head : ∀ upper ∈ entry.parent, upper < place) (tail : Rising (place + 1) stretch) :
    Rising place (entry :: stretch) := by
  intro position found found_eq upper parent
  cases position with
  | zero =>
      cases found_eq
      exact head upper parent
  | succ position =>
      have bound := tail position found (by simpa using found_eq) upper parent
      omega

end Entry

namespace Branch

mutual

theorem rising_entries {parent place : Nat} (earlier : parent < place) (branch : Branch) :
    Entry.Rising place (branch.entries parent place) := by
  cases branch with
  | node kind children =>
      exact .cons (by simpa using earlier) (rising_entriesAll (Nat.lt_succ_self place) children)

theorem rising_entriesAll {parent place : Nat} (earlier : parent < place)
    (branches : List Branch) : Entry.Rising place (entriesAll parent place branches) := by
  cases branches with
  | nil =>
      intro position entry found
      simp [entriesAll] at found
  | cons child children =>
      have rest := rising_entriesAll (show parent < place + child.size by omega) children
      exact (rising_entries earlier child).append (by rwa [length_entries])

end

end Branch

namespace Spine

theorem parentIn_lt (outer : List Frame) : ∀ upper ∈ parentIn outer, upper < nodeIn outer := by
  intro upper parent
  cases outer with
  | nil => cases parent
  | cons frame outer =>
      cases parent
      simp only [nodeIn]
      omega

theorem rising_frame (frame : Frame) (outer : List Frame) (child : List Nat) :
    Entry.Rising (nodeIn outer) (frame.entries (parentIn outer) (nodeIn outer) child) :=
  .cons (parentIn_lt outer) (rising_entriesAll (Nat.lt_succ_self _) frame.done)

theorem rising_entriesIn (outer : List Frame) : Entry.Rising 0 (entriesIn outer) := by
  induction outer with
  | nil =>
      intro position entry found
      simp [entriesIn] at found
  | cons frame outer induction =>
      exact induction.append (by simpa using rising_frame frame outer _)

/-- Nodes come after the nodes that they are placed under. -/
theorem parent_lt {spine : Spine} {upper node : Nat}
    (parent : spine.builder.tree.parent node = some upper) : upper < node := by
  have rising : Entry.Rising 0 spine.entries :=
    (rising_entriesIn spine.outer).append
      (by simpa [Spine.node] using rising_frame spine.current spine.outer [])
  obtain ⟨entry, found, parent_eq⟩ := Option.bind_eq_some_iff.mp parent
  have bound := rising node entry (by simpa [builder] using found) upper parent_eq
  omega

/-- Nodes come after the nodes that they are below. -/
theorem lt_of_below {spine : Spine} {upper node : Nat}
    (below : spine.builder.tree.Below upper node) : upper < node := by
  induction below with
  | single parent => exact parent_lt parent
  | tail _ parent induction => exact Nat.lt_trans induction (parent_lt parent)

end Spine

namespace Builder

/-! ## Walks -/

/-- One state of building leads to another by entering a node, doing what is inside it and leaving
it. -/
structure Encloses (before after : Builder) (kind : Kind) (offset : Nat) (inside : List Action)
    (node : Nat) (entered walked : Builder) : Prop where
  /-- The node is entered. -/
  enter : before.enter kind offset = .ok (node, entered)
  /-- What is inside is done. -/
  actAll : entered.actAll inside = .ok walked
  /-- The node is left. -/
  leave : walked.leave node offset = .ok after

theorem actAll_cons_eq_ok {before after : Builder} {action : Action} {actions : List Action} :
    before.actAll (action :: actions) = .ok after ↔
      ∃ next, before.act action = .ok next ∧ next.actAll actions = .ok after := by
  rw [actAll]
  exact bind_eq_ok

theorem actAll_append_eq_ok {before after : Builder} {first second : List Action} :
    before.actAll (first ++ second) = .ok after ↔
      ∃ next, before.actAll first = .ok next ∧ next.actAll second = .ok after := by
  induction first generalizing before with
  | nil => simp [actAll]
  | cons action first induction =>
      simp only [List.cons_append, actAll_cons_eq_ok, induction]
      constructor
      · rintro ⟨next, step, last, steps, rest⟩
        exact ⟨last, ⟨next, step, steps⟩, rest⟩
      · rintro ⟨last, ⟨next, step, steps⟩, rest⟩
        exact ⟨next, step, last, steps, rest⟩

theorem act_within_eq_ok {before after : Builder} {kind : Kind} {offset : Nat}
    {inside : List Action} :
    before.act (.within kind offset inside) = .ok after ↔
      ∃ node entered walked, before.Encloses after kind offset inside node entered walked := by
  rw [act]
  constructor
  · intro step
    obtain ⟨⟨node, entered⟩, enter, step⟩ := bind_eq_ok.mp step
    obtain ⟨walked, acted, leave⟩ := bind_eq_ok.mp step
    exact ⟨node, entered, walked, enter, acted, leave⟩
  · rintro ⟨node, entered, walked, enter, acted, leave⟩
    exact bind_eq_ok.mpr ⟨(node, entered), enter, bind_eq_ok.mpr ⟨walked, acted, leave⟩⟩

theorem tree_of_leave {before after : Builder} {node offset : Nat}
    (left : before.leave node offset = .ok after) : after.tree = before.tree := by
  rw [leave] at left
  by_cases here : before.current = node
  · rw [if_pos here, if_pos here] at left
    cases left
    rfl
  · rw [if_neg here] at left
    split at left
    · cases left
      rfl
    · cases left

end Builder

namespace Spine

theorem size_add (spine : Spine) (branch : Branch) :
    (spine.add branch).size = spine.size + branch.size := by
  simp only [size, add, Frame.add, nodeIn, sizeAll_append, sizeAll]
  omega

theorem add_add_eq (spine : Spine) (first second : Branch) :
    (spine.add first).add second = spine.addAll [first, second] := by
  simp [add, addAll, Frame.add]

/-- Control flow adds one branch; the node that it enters is at its top, and what is done inside
adds the rest of it. -/
theorem encloses_eq {spine : Spine} {after : Builder} {kind : Kind} {offset : Nat}
    {inside : List Action} {node : Nat} {entered walked : Builder} (structural : ¬kind.isElement)
    (encloses : spine.builder.Encloses after kind offset inside node entered walked) :
    ∃ done, after = (spine.add (.node kind done)).builder ∧ node = spine.size ∧
      entered.tree.size = spine.size + 1 ∧
      walked.tree.size = spine.size + (Branch.node kind done).size := by
  have step := Builder.act_within_eq_ok.mpr ⟨node, entered, walked, encloses⟩
  rw [act_builder] at step
  obtain ⟨next, acted, rfl⟩ := map_eq_ok.mp step
  obtain ⟨done, rfl⟩ := within_eq_ok structural acted
  have enter := encloses.enter
  rw [enter_builder] at enter
  obtain ⟨opened, enters, same⟩ := map_eq_ok.mp enter
  obtain ⟨-, rfl⟩ := enter_eq_ok.mp enters
  cases same
  refine ⟨done, rfl, rfl, ?_, ?_⟩
  · simp [opening, size, nodeIn, sizeAll]
  · rw [← Builder.tree_of_leave encloses.leave, size_builder, size_add]

/-- A conditional and an alternative that are entered one after the other are placed last under the
innermost open node, and what is done inside is below them. -/
theorem choice_eq {spine : Spine} {between after : Builder} {test : String} {place start : Nat}
    {yes no : List Action} {held other : Nat} {first taken second left : Builder}
    (held_walk : spine.builder.Encloses between (.conditional test false) place yes held first taken)
    (other_walk : between.Encloses after .otherwise start no other second left) :
    spine.builder.Grows after [held, other] ∧
      after.tree.kind held = .conditional test false ∧ after.tree.kind other = .otherwise ∧
      (∀ node, first.tree.size ≤ node → node < taken.tree.size → after.tree.Below held node) ∧
      ∀ node, second.tree.size ≤ node → node < left.tree.size → after.tree.Below other node := by
  obtain ⟨done, rfl, rfl, first_size, taken_size⟩ :=
    encloses_eq (by simp [Kind.isElement]) held_walk
  obtain ⟨undone, rfl, rfl, second_size, left_size⟩ :=
    encloses_eq (by simp [Kind.isElement]) other_walk
  rw [size_add] at second_size left_size ⊢
  rw [add_add_eq]
  have grows := spine.grows_addAll [.node (.conditional test false) done, .node .otherwise undone]
  have holds := spine.holds_addAll [.node (.conditional test false) done, .node .otherwise undone]
  have kinds := holds.kinds
  simp only [places, List.map_cons, List.map_nil, Branch.kind, List.cons.injEq] at kinds
  simp only [entriesAll, List.append_nil] at holds
  have held_holds := holds.left
  have other_holds := holds.right
  rw [Branch.length_entries] at other_holds
  refine ⟨grows, kinds.1, kinds.2.1, ?_, ?_⟩
  · intro node later inside
    exact held_holds.below (by omega) (by omega)
  · intro node later inside
    exact other_holds.below (by omega) (by omega)

end Spine

namespace Builder

/-- What a conditional expression does to a state of building that is reached. When one of its
branches is a call that renders, parentheses and sequences aside, it makes a conditional that holds
the text of its test and an alternative next to it, and every node that a branch adds is below the
one or the other. Else test and branches are walked in a row, and the first node that a branch adds
is below no node but those that were there before the branch. -/
theorem Reached.choice {before after : Builder} (reached : before.Reached)
    {helpers : HelperNames} {place : Script.Extent} {test yes no : Script.Expr}
    (steps : before.actAll (Script.actions helpers (.conditional place test yes no)) = .ok after) :
    if Script.renders helpers yes || Script.renders helpers no then
      ∃ held other first taken between second left,
        before.Encloses between (.conditional test.text false) place.start
          (Script.actions helpers yes) held first taken ∧
        between.Encloses after .otherwise no.start (Script.actions helpers no) other second left ∧
        before.Grows after [held, other] ∧
        after.tree.kind held = .conditional test.text false ∧
        after.tree.kind other = .otherwise ∧
        (∀ node, first.tree.size ≤ node → node < taken.tree.size → after.tree.Below held node) ∧
        ∀ node, second.tree.size ≤ node → node < left.tree.size → after.tree.Below other node
    else
      ∃ tested taken, before.actAll (Script.actions helpers test) = .ok tested ∧
        tested.actAll (Script.actions helpers yes) = .ok taken ∧
        taken.actAll (Script.actions helpers no) = .ok after ∧
        (∀ upper, after.tree.Below upper tested.tree.size → upper < tested.tree.size) ∧
        ∀ upper, after.tree.Below upper taken.tree.size → upper < taken.tree.size := by
  obtain ⟨spine, rfl, -⟩ := reached.exists_spine
  have walked := steps
  rw [Spine.actAll_builder] at walked
  obtain ⟨last, -, rfl⟩ := map_eq_ok.mp walked
  rw [Script.actions] at steps
  split
  · rename_i kept
    rw [if_pos kept] at steps
    obtain ⟨between, step, rest⟩ := actAll_cons_eq_ok.mp steps
    obtain ⟨next, step_other, ends⟩ := actAll_cons_eq_ok.mp rest
    obtain rfl : next = last.builder := Except.ok.inj ends
    obtain ⟨held, first, taken, held_walk⟩ := act_within_eq_ok.mp step
    obtain ⟨other, second, left, other_walk⟩ := act_within_eq_ok.mp step_other
    have added := Spine.choice_eq held_walk other_walk
    exact ⟨held, other, first, taken, between, second, left, held_walk, other_walk, added⟩
  · rename_i flattened
    rw [if_neg flattened] at steps
    obtain ⟨taken, steps, taken_no⟩ := actAll_append_eq_ok.mp steps
    obtain ⟨tested, tested_test, taken_yes⟩ := actAll_append_eq_ok.mp steps
    exact ⟨tested, taken, tested_test, taken_yes, taken_no, fun _ => Spine.lt_of_below,
      fun _ => Spine.lt_of_below⟩

/-- The call that pushes a text. -/
def pushText : Script.Expr :=
  .call default (.identifier default "_push") [.expr (.string default "x")]

/-- A choice between a text and nothing. -/
theorem conditional_pushText :
    Builder.start.Reached ∧
      ∃ after, Builder.start.actAll (Script.actions .usual
          (.conditional default (.other ⟨0, "a"⟩) pushText (.other ⟨15, "0"⟩))) = .ok after ∧
        ∃ held other, Builder.start.Grows after [held, other] ∧
          after.tree.kind held = .conditional "a" false ∧ after.tree.kind other = .otherwise := by
  obtain ⟨after, steps⟩ := exists_eq_ok (Builder.start.actAll (Script.actions .usual
    (.conditional default (.other ⟨0, "a"⟩) pushText (.other ⟨15, "0"⟩)))) (by decide +kernel)
  have choice := Reached.start.choice steps
  rw [if_pos (by decide)] at choice
  obtain ⟨held, other, _, _, _, _, _, _, _, grows, kind_held, kind_other, _⟩ := choice
  exact ⟨.start, after, steps, held, other, grows, kind_held, kind_other⟩

/-- The state after a text is placed under the root. -/
def withText : Builder :=
  ⟨⟨#[⟨.root, none, #[1]⟩, ⟨.text "x", some 0, #[]⟩]⟩, []⟩

/-- The text is under no conditional when the call stands behind an operator: the tree has none. -/
theorem conditional_flattened :
    Builder.start.Reached ∧
      Builder.start.actAll (Script.actions .usual (.other ⟨0, "a"⟩)) = .ok Builder.start ∧
      Builder.start.actAll
        (Script.actions .usual (.binary default (.other ⟨4, "b"⟩) pushText)) = .ok withText ∧
      Builder.start.actAll (Script.actions .usual (.conditional default (.other ⟨0, "a"⟩)
        (.binary default (.other ⟨4, "b"⟩) pushText) (.other ⟨20, "0"⟩))) = .ok withText ∧
      Builder.start.tree.size < withText.tree.size ∧
      ∀ node chained, withText.tree.kind node ≠ .conditional "a" chained := by
  refine ⟨.start, rfl, eq_ok_of_toOption (by decide +kernel),
    eq_ok_of_toOption (by decide +kernel), by decide, ?_⟩
  rintro (_ | _ | node) chained found <;> cases found

end Builder

end IslandSlots
