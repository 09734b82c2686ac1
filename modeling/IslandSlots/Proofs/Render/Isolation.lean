import IslandSlots.Proofs.Render.Spine
import IslandSlots.Render.Reading

/-!
# Isolation of control flow

What is inside a conditional, an iteration or a component is arbitrary: it opens and closes nodes,
ends elements that need no end tag, and extends texts. None of it leaves the node that is opened
around it. An end tag closes elements only, and a node that control flow opens is closed by the one
step that names it. So control flow as a whole adds branches under the innermost open node, and
changes nothing else.
-/

namespace IslandSlots

open Branch

namespace Kind

/-- Whether a kind is that of an element. -/
def isElement : Kind → Bool
  | .element .. => true
  | _ => false

theorem isElement_of_hasTag {tag : String} {kind : Kind} (tagged : kind.hasTag tag) :
    kind.isElement := by
  obtain ⟨attrs, rfl⟩ := eq_of_hasTag tagged
  rfl

theorem isElement_of_isImplied {kind : Kind} (implied : kind.isImplied) : kind.isElement := by
  cases kind with
  | element tag attrs => rfl
  | _ => cases implied

end Kind

namespace Spine

/-! ## A node that stays open -/

/-- A node of the given kind is open with the given nodes around it; further nodes may be open
inside it. -/
inductive Anchored (kind : Kind) (lower : List Frame) : Spine → Prop where
  | here (done : List Branch) : Anchored kind lower ⟨⟨kind, done⟩, lower⟩
  | inside (current : Frame) {frame : Frame} {outer : List Frame} :
      Anchored kind lower ⟨frame, outer⟩ → Anchored kind lower ⟨current, frame :: outer⟩

namespace Anchored

variable {kind : Kind} {lower : List Frame} {spine before after : Spine}

theorem fill {found : Kind} {done : List Branch} {outer : List Frame}
    (anchored : Anchored kind lower ⟨⟨found, done⟩, outer⟩) (filled : List Branch) :
    Anchored kind lower ⟨⟨found, filled⟩, outer⟩ := by
  cases anchored with
  | here => exact .here filled
  | inside _ anchored => exact .inside _ anchored

theorem add (anchored : Anchored kind lower spine) (branch : Branch) :
    Anchored kind lower (spine.add branch) :=
  anchored.fill _

theorem opening (anchored : Anchored kind lower spine) (opened : Kind) :
    Anchored kind lower (spine.opening opened) :=
  .inside _ anchored

/-- The node is not closed when another one is innermost. -/
theorem close (anchored : Anchored kind lower spine)
    (other : ∀ done, spine ≠ ⟨⟨kind, done⟩, lower⟩) :
    Anchored kind lower spine.close := by
  cases anchored with
  | here done => exact absurd rfl (other done)
  | inside current anchored => exact anchored.add _

theorem endImplied (anchored : Anchored kind lower spine) (structural : ¬kind.isElement) :
    Anchored kind lower spine.endImplied := by
  obtain ⟨current, outer⟩ := spine
  induction outer generalizing current with
  | nil => exact anchored
  | cons frame outer induction =>
      rw [Spine.endImplied, endImpliedIn]
      split
      · rename_i implied
        -- What is ended needs no end tag, so it is an element inside the node.
        cases anchored with
        | here => exact absurd (Kind.isElement_of_isImplied implied) structural
        | inside _ anchored => exact induction _ (anchored.add _)
      · exact anchored

/-- The nodes inside come after the node in the store. -/
theorem le_node (anchored : Anchored kind lower spine) : nodeIn lower ≤ spine.node := by
  induction anchored with
  | here done => exact Nat.le_refl _
  | @inside current frame outer _ induction =>
      simp only [node, nodeIn] at induction ⊢
      omega

theorem lt_size (anchored : Anchored kind lower spine) : nodeIn lower < spine.size := by
  have inside := anchored.le_node
  simp only [node] at inside
  simp only [size, nodeIn]
  omega

theorem leave {node offset : Nat} (anchored : Anchored kind lower before)
    (structural : ¬kind.isElement) (further : nodeIn lower < node)
    (step : before.leave node offset = .ok after) : Anchored kind lower after := by
  obtain ⟨ended, ended_eq, ended_node, rfl⟩ := leave_eq_ok step
  have ended_anchored : Anchored kind lower ended := by
    rcases ended_eq with rfl | rfl
    · exact anchored
    · exact anchored.endImplied structural
  apply ended_anchored.close
  rintro done rfl
  exact Nat.ne_of_lt further ended_node

theorem token {offset : Nat} {token : Token} (anchored : Anchored kind lower before)
    (structural : ¬kind.isElement) (step : before.token offset token = .ok after) :
    Anchored kind lower after := by
  have placed {child : Kind} (step : before.place child offset = .ok after) :
      Anchored kind lower after := by
    obtain ⟨-, rfl⟩ := place_eq_ok.mp step
    exact anchored.add _
  cases token with
  | opening tag attrs selfClosing =>
      cases selfClosing with
      | true => exact placed step
      | false =>
          obtain ⟨-, rfl⟩ := enter_eq_ok.mp step
          exact anchored.opening _
  | closing tag =>
      obtain ⟨ended, ended_eq, tagged, rfl⟩ := closeTag_eq_ok step
      have ended_anchored : Anchored kind lower ended := by
        rcases ended_eq with rfl | rfl
        · exact anchored
        · exact anchored.endImplied structural
      -- What is closed has the tag, so it is an element inside the node.
      apply ended_anchored.close
      rintro done rfl
      exact structural (Kind.isElement_of_hasTag tagged)
  | text content =>
      rw [Spine.token, Spine.text] at step
      split at step
      · cases step
        exact anchored.fill _
      · exact placed step
  | fragmentStart => exact placed step
  | fragmentEnd => exact placed step
  | comment body =>
      cases step
      exact anchored

theorem tokens {offset : Nat} {run : List Token} (anchored : Anchored kind lower before)
    (structural : ¬kind.isElement) (steps : before.tokens offset run = .ok after) :
    Anchored kind lower after := by
  induction run generalizing before with
  | nil =>
      cases steps
      exact anchored
  | cons token run induction =>
      rw [Spine.tokens] at steps
      obtain ⟨next, step, steps⟩ := bind_eq_ok.mp steps
      exact induction (anchored.token structural step) steps

mutual

/-- No action closes a node that is no element and that was open before. -/
theorem act {before after : Spine} {action : Action} (anchored : Anchored kind lower before)
    (structural : ¬kind.isElement) (step : before.act action = .ok after) :
    Anchored kind lower after := by
  cases action with
  | feed chunk offset =>
      rw [Spine.act, feed] at step
      split at step
      · exact anchored.tokens structural step
      · cases step
  | place child offset =>
      obtain ⟨-, rfl⟩ := place_eq_ok.mp step
      exact anchored.add _
  | within child offset inside =>
      rw [Spine.act] at step
      obtain ⟨inner, entered, step⟩ := bind_eq_ok.mp step
      obtain ⟨last, acted, left⟩ := bind_eq_ok.mp step
      obtain ⟨-, rfl⟩ := enter_eq_ok.mp entered
      have last_anchored := actAll (anchored.opening child) structural acted
      exact last_anchored.leave structural anchored.lt_size left
  | reject construct offset => cases step

/-- No actions close a node that is no element and that was open before. -/
theorem actAll {before after : Spine} {actions : List Action}
    (anchored : Anchored kind lower before) (structural : ¬kind.isElement)
    (steps : before.actAll actions = .ok after) : Anchored kind lower after := by
  cases actions with
  | nil =>
      cases steps
      exact anchored
  | cons action actions =>
      rw [Spine.actAll] at steps
      obtain ⟨next, step, steps⟩ := bind_eq_ok.mp steps
      exact actAll (act anchored structural step) structural steps

end

/-- The node is the innermost open one where the place says so. -/
theorem eq_here (anchored : Anchored kind lower spine) (same : spine.node = nodeIn lower) :
    ∃ done, spine = ⟨⟨kind, done⟩, lower⟩ := by
  cases anchored with
  | here done => exact ⟨done, rfl⟩
  | inside current anchored =>
      have inside := anchored.le_node
      simp only [node, nodeIn] at inside same
      omega

end Anchored

/-! ## Branches added at the end -/

/-- Control flow adds a branch of its kind, whatever is inside it. -/
theorem within_eq_ok {before after : Spine} {kind : Kind} {offset : Nat} {inside : List Action}
    (structural : ¬kind.isElement) (step : before.act (.within kind offset inside) = .ok after) :
    ∃ done, after = before.add (.node kind done) := by
  rw [act] at step
  obtain ⟨inner, entered, step⟩ := bind_eq_ok.mp step
  obtain ⟨last, acted, left⟩ := bind_eq_ok.mp step
  obtain ⟨-, rfl⟩ := enter_eq_ok.mp entered
  have anchored : Anchored kind (before.current :: before.outer) last :=
    Anchored.actAll (.here []) structural acted
  obtain ⟨ended, ended_eq, ended_node, rfl⟩ := leave_eq_ok left
  have ended_anchored : Anchored kind (before.current :: before.outer) ended := by
    rcases ended_eq with rfl | rfl
    · exact anchored
    · exact anchored.endImplied structural
  -- Nothing inside has closed the node, and what is closed now stands at its place.
  obtain ⟨done, rfl⟩ := ended_anchored.eq_here ended_node
  exact ⟨done, rfl⟩

theorem singleton_within_eq_ok {before after : Spine} {kind : Kind} {offset : Nat}
    {inside : List Action} (structural : ¬kind.isElement)
    (steps : before.actAll [.within kind offset inside] = .ok after) :
    ∃ done, after = before.addAll [.node kind done] := by
  rw [actAll] at steps
  obtain ⟨next, step, steps⟩ := bind_eq_ok.mp steps
  cases steps
  exact within_eq_ok structural step

end Spine

namespace Script

/-- The nodes for what follows the first branch of an `if`: one for each further condition, in
order, and one for what is done when none holds. -/
def alternativeKinds : Alternative → List Kind
  | .missing => []
  | .otherwise _ (.branch _ test _ no) => .conditional test.text true :: alternativeKinds no
  | .otherwise _ _ => [.otherwise]

theorem alternativeActions_eq_ok {before after : Spine} {helpers : HelperNames} {no : Alternative}
    (steps : before.actAll (alternativeActions helpers no) = .ok after) :
    ∃ branches, after = before.addAll branches ∧
      branches.map Branch.kind = alternativeKinds no := by
  fun_induction alternativeKinds no generalizing before with
  | case1 =>
      rw [alternativeActions] at steps
      cases steps
      exact ⟨[], by rw [Spine.addAll_nil], rfl⟩
  | case2 start place test yes no induction =>
      rw [alternativeActions, Spine.actAll] at steps
      obtain ⟨next, step, steps⟩ := bind_eq_ok.mp steps
      obtain ⟨done, rfl⟩ := Spine.within_eq_ok (by simp [Kind.isElement]) step
      obtain ⟨branches, rfl, kinds⟩ := induction steps
      refine ⟨_, Spine.addAll_add _ _ _, ?_⟩
      rw [List.map_cons, kinds]
      rfl
  | case3 start statement other =>
      rw [alternativeActions] at steps
      · obtain ⟨done, rfl⟩ := Spine.singleton_within_eq_ok (by simp [Kind.isElement]) steps
        exact ⟨_, rfl, rfl⟩
      · exact other

theorem listActions_eq_ok {before after : Spine} {helpers : HelperNames} {place : Extent}
    {arguments : List Item}
    (steps : before.actAll (listActions helpers place arguments) = .ok after) :
    ∃ left right done, after = before.addAll [.node (.iteration left right) done] := by
  rw [listActions.eq_def] at steps
  split at steps
  · cases steps
  · cases steps
  · split at steps
    · obtain ⟨done, rfl⟩ := Spine.singleton_within_eq_ok (by simp [Kind.isElement]) steps
      exact ⟨_, _, done, rfl⟩
    · cases steps
  · cases steps

theorem componentActions_eq_ok {before after : Spine} {helpers : HelperNames} {place : Extent}
    {arguments : List Item}
    (steps : before.actAll (componentActions helpers place arguments) = .ok after) :
    ∃ reference props done, after = before.addAll [.node (.component reference props) done] := by
  have within {reference props : String} {inside : List Action}
      (steps : before.actAll [.within (.component reference props) place.start inside] =
        .ok after) :
      ∃ reference props done,
        after = before.addAll [.node (.component reference props) done] := by
    obtain ⟨done, rfl⟩ := Spine.singleton_within_eq_ok (by simp [Kind.isElement]) steps
    exact ⟨_, _, done, rfl⟩
  rw [componentActions.eq_def] at steps
  split at steps
  · cases steps
  · cases steps
  · exact within steps
  · exact within steps
  · exact within steps
  · exact within steps
  · cases steps

end Script

namespace Builder

/-- One state of building comes after another and differs from it by nodes placed last under the
innermost open node, with what is below them. -/
structure Grows (before after : Builder) (tops : List Nat) : Prop where
  /-- The open nodes are the same. -/
  opened : after.opened = before.opened
  /-- Other nodes keep what they stand for, what they are placed under and what is under them. -/
  kept : ∀ node < before.tree.size, node ≠ before.current →
    after.tree.entries[node]? = before.tree.entries[node]?
  /-- The innermost open node keeps what it stands for. -/
  kind_current : after.tree.kind before.current = before.tree.kind before.current
  /-- The innermost open node keeps what it is placed under. -/
  parent_current : after.tree.parent before.current = before.tree.parent before.current
  /-- The new nodes are placed last under the innermost open node. -/
  children_current : after.tree.children before.current =
    before.tree.children before.current ++ tops
  /-- The new nodes are not among the old ones. -/
  fresh : ∀ top ∈ tops, before.tree.size ≤ top
  /-- The new nodes know the node that they are placed under. -/
  parent_top : ∀ top ∈ tops, after.tree.parent top = some before.current
  /-- Every node that was not there before is one of the new nodes or below one of them. -/
  below_top : ∀ node, before.tree.size ≤ node → node < after.tree.size →
    ∃ top ∈ tops, node = top ∨ after.tree.Below top node

end Builder

namespace Spine

private theorem getElem?_kept {α : Type} {before middle : List α} {place : Nat}
    (other : place ≠ before.length) (earlier : place < before.length + 1 + middle.length)
    (first second : α) (later : List α) :
    (before ++ second :: (middle ++ later))[place]? = (before ++ first :: middle)[place]? := by
  rcases Nat.lt_or_gt_of_ne other with inside | further
  · rw [List.getElem?_append_left inside, List.getElem?_append_left inside]
  · obtain ⟨rest, rfl⟩ : ∃ rest, place = before.length + (rest + 1) :=
      ⟨place - before.length - 1, by omega⟩
    have bound : rest < middle.length := by omega
    simp [List.getElem?_append_right, List.getElem?_append_left bound]

theorem entries_addAll (spine : Spine) (branches : List Branch) :
    (spine.addAll branches).entries =
      entriesIn spine.outer ++
        ⟨spine.current.kind, parentIn spine.outer,
          (places (spine.node + 1) spine.current.done ++ places spine.size branches).toArray⟩ ::
        (entriesAll spine.node (spine.node + 1) spine.current.done ++
          entriesAll spine.node spine.size branches) := by
  simp [entries, addAll, Frame.entries, node, size, nodeIn, places_append, entriesAll_append]

/-- Branches that are added lie behind everything else in the store. -/
theorem holds_addAll (spine : Spine) (branches : List Branch) :
    (spine.addAll branches).builder.tree.Holds spine.size
      (entriesAll spine.node spine.size branches) := by
  refine ⟨entriesIn spine.outer ++
    ⟨spine.current.kind, parentIn spine.outer,
      (places (spine.node + 1) spine.current.done ++ places spine.size branches).toArray⟩ ::
    entriesAll spine.node (spine.node + 1) spine.current.done, [], ?_, ?_⟩
  · simp [builder, entries_addAll]
  · simp only [List.length_append, List.length_cons, length_entriesIn, length_entriesAll, size,
      nodeIn]
    omega

theorem size_addAll (spine : Spine) (branches : List Branch) :
    (spine.addAll branches).size = spine.size + sizeAll branches := by
  simp only [size, addAll, nodeIn, sizeAll_append]
  omega

theorem entry_addAll (spine : Spine) (branches : List Branch) :
    (spine.addAll branches).builder.tree.entries[spine.node]? =
      some ⟨spine.current.kind, parentIn spine.outer,
        (places (spine.node + 1) spine.current.done ++ places spine.size branches).toArray⟩ := by
  have entry := entry_current (spine.addAll branches)
  rw [addAll, places_append] at entry
  exact entry

/-- Branches that are added change nothing else. -/
theorem grows_addAll (spine : Spine) (branches : List Branch) :
    spine.builder.Grows (spine.addAll branches).builder (places spine.size branches) := by
  have current := entry_current spine
  have current_after := entry_addAll spine branches
  have holds := holds_addAll spine branches
  constructor
  case opened => rfl
  case kept =>
    intro node earlier other
    rw [size_builder, size] at earlier
    rw [current_builder] at other
    simp only [builder, List.getElem?_toArray, entries_addAll]
    rw [entries, Frame.entries, List.append_nil]
    apply getElem?_kept
    · rwa [length_entriesIn]
    · simp only [length_entriesIn, length_entriesAll]
      exact earlier
  case kind_current =>
    simp only [current_builder, Tree.kind, current, current_after, Option.map_some]
  case parent_current =>
    simp only [current_builder, Tree.parent, current, current_after, Option.bind_some]
  case children_current =>
    simp only [current_builder, Tree.children, current, current_after, Option.map_some,
      Option.getD_some]
  case fresh =>
    intro top found
    rw [size_builder]
    exact (le_of_mem_places found).1
  case parent_top =>
    intro top found
    rw [current_builder]
    exact holds.parent_eq found
  case below_top =>
    intro node later inside
    rw [size_builder] at later inside
    rw [size_addAll] at inside
    exact holds.top_or_below later inside

end Spine

namespace Builder

/-- Control flow that is walked to its end leaves the open nodes as they are and adds nothing but
its own nodes under the innermost of them: one for each condition of an `if` in order and at most
one for what is done when none holds, one for a call of the list helper, one for a call of the
component helper. All else that is new is below these. -/
theorem Reached.grows {before after : Builder} (reached : before.Reached) (helpers : HelperNames) :
    (∀ start test yes no, test.name? ≠ some helpers.push →
      before.actAll (Script.statementActions helpers (.branch start test yes no)) = .ok after →
        ∃ tops, before.Grows after tops ∧
          tops.map after.tree.kind =
            .conditional test.text false :: Script.alternativeKinds no) ∧
      (∀ place arguments,
        before.actAll (Script.listActions helpers place arguments) = .ok after →
          ∃ tops left right, before.Grows after tops ∧
            tops.map after.tree.kind = [.iteration left right]) ∧
      ∀ place arguments,
        before.actAll (Script.componentActions helpers place arguments) = .ok after →
          ∃ tops reference props, before.Grows after tops ∧
            tops.map after.tree.kind = [.component reference props] := by
  obtain ⟨spine, rfl, -⟩ := reached.exists_spine
  refine ⟨?_, ?_, ?_⟩
  · intro start test yes no other steps
    rw [Spine.actAll_builder] at steps
    obtain ⟨last, acted, rfl⟩ := map_eq_ok.mp steps
    rw [Script.statementActions, if_neg other, Spine.actAll] at acted
    obtain ⟨next, step, rest⟩ := bind_eq_ok.mp acted
    obtain ⟨done, rfl⟩ := Spine.within_eq_ok (by simp [Kind.isElement]) step
    obtain ⟨branches, rfl, kinds⟩ := Script.alternativeActions_eq_ok rest
    rw [Spine.addAll_add, ← kinds]
    exact ⟨_, Spine.grows_addAll spine _, (Spine.holds_addAll spine _).kinds⟩
  · intro place arguments steps
    rw [Spine.actAll_builder] at steps
    obtain ⟨last, acted, rfl⟩ := map_eq_ok.mp steps
    obtain ⟨left, right, done, rfl⟩ := Script.listActions_eq_ok acted
    exact ⟨_, left, right, Spine.grows_addAll spine _, (Spine.holds_addAll spine _).kinds⟩
  · intro place arguments steps
    rw [Spine.actAll_builder] at steps
    obtain ⟨last, acted, rfl⟩ := map_eq_ok.mp steps
    obtain ⟨reference, props, done, rfl⟩ := Script.componentActions_eq_ok acted
    exact ⟨_, reference, props, Spine.grows_addAll spine _, (Spine.holds_addAll spine _).kinds⟩

/-- The state after the start tag of an item. -/
def inItem : Builder where
  tree := ⟨#[⟨.root, none, #[1]⟩, ⟨.element "li" "", some 0, #[]⟩]⟩
  opened := [1]

/-- The statement that pushes the start of a paragraph. -/
def pushParagraph : Script.Statement :=
  .expression (.call default (.identifier default "_push") [.expr (.string default "<p>x")])

/-- A condition, a list and a component in an item, with paragraphs that have no end tag inside. -/
theorem grows_inItem :
    inItem.Reached ∧
      (∃ after,
        inItem.actAll (Script.statementActions .usual
          (.branch 0 (.other ⟨4, "a"⟩) pushParagraph (.otherwise 9 pushParagraph))) = .ok after ∧
        ∃ tops, inItem.Grows after tops ∧
          tops.map after.tree.kind = [.conditional "a" false, .otherwise]) ∧
      (∃ after,
        inItem.actAll (Script.listActions .usual default
          [.expr (.other ⟨16, "items"⟩),
            .expr (.function default ⟨["item"], none⟩ (.block [pushParagraph]))]) = .ok after ∧
        ∃ tops left right, inItem.Grows after tops ∧
          tops.map after.tree.kind = [.iteration left right]) ∧
      ∃ after,
        inItem.actAll (Script.componentActions .usual default
          [.expr (.other ⟨21, "Child"⟩), .expr (.null ⟨28, "null"⟩),
            .expr (.function default ⟨[], none⟩ (.block [pushParagraph]))]) = .ok after ∧
        ∃ tops reference props, inItem.Grows after tops ∧
          tops.map after.tree.kind = [.component reference props] := by
  have reached : inItem.Reached :=
    .token 0 (.opening "li" "" false) .start rfl
  refine ⟨reached, ?_, ?_, ?_⟩
  · obtain ⟨after, steps⟩ := exists_eq_ok (inItem.actAll (Script.statementActions .usual
      (.branch 0 (.other ⟨4, "a"⟩) pushParagraph (.otherwise 9 pushParagraph)))) (by decide +kernel)
    exact ⟨after, steps, (reached.grows .usual).1 _ _ _ _ (by simp [Script.Expr.name?]) steps⟩
  · obtain ⟨after, steps⟩ := exists_eq_ok (inItem.actAll (Script.listActions .usual default
      [.expr (.other ⟨16, "items"⟩),
        .expr (.function default ⟨["item"], none⟩ (.block [pushParagraph]))])) (by decide +kernel)
    exact ⟨after, steps, (reached.grows .usual).2.1 _ _ steps⟩
  · obtain ⟨after, steps⟩ := exists_eq_ok (inItem.actAll (Script.componentActions .usual default
      [.expr (.other ⟨21, "Child"⟩), .expr (.null ⟨28, "null"⟩),
        .expr (.function default ⟨[], none⟩ (.block [pushParagraph]))])) (by decide +kernel)
    exact ⟨after, steps, (reached.grows .usual).2.2 _ _ steps⟩

end Builder

end IslandSlots
