import IslandSlots.Proofs.Render.Isolation
import Mathlib.Data.List.Forall2

/-!
# Slots of a component

What a call of the component helper offers its component: a slot for each member of an object but
its flag, a slot for a lone function, and a slot for each descriptor in the array of slots that may
be there. A descriptor that stands in a call of the list helper for slots is offered once for each
item, and the slot knows the innermost of these calls.
-/

namespace IslandSlots

namespace Script

/-- Content that a component call offers for a slot. -/
structure Offer where
  /-- The name of the slot. -/
  name : String
  /-- What the content binds. -/
  scope : Option String
  /-- The calls of the list helper that the descriptor stands in, innermost first. -/
  loops : List Binding
  deriving DecidableEq, Repr

namespace Offer

/-- The node for the content. It has room for one loop. -/
def kind (offer : Offer) : Kind :=
  .slot offer.name offer.scope offer.loops.head?

/-- What the function of a slot binds. -/
def scopeOf (helpers : HelperNames) (value : Expr) : Option String :=
  (slotFunction? helpers value).bind fun function => function.parameters.scope

/-- The offer of a member of an object of slots, if it is no flag. -/
def ofMember? (helpers : HelperNames) : Member → Option Offer
  | .property _ key label value =>
    if label = some "_" then none else some ⟨label.getD key.text, scopeOf helpers value, []⟩
  | .spread _ _ => none

/-- The offer of a descriptor. -/
def ofDescriptor (helpers : HelperNames) (loops : List Binding) (members : List Member) : Offer where
  name := ((labelled? "name" members).map slotName).getD ""
  scope := (labelledFunction? helpers "fn" members).bind fun function => function.parameters.scope
  loops := loops

mutual

/-- The offers of the descriptors in an element of the array of slots that may be there, given the
calls of the list helper around it: those in both branches of a condition, and those in what a
callback of the list helper returns. -/
def ofElement (helpers : HelperNames) (loops : List Binding) : Expr → List Offer
  | .paren _ inner => ofElement helpers loops inner
  | .object _ members => [ofDescriptor helpers loops members]
  | .conditional _ _ yes no => ofElement helpers loops yes ++ ofElement helpers loops no
  | .call _ callee (.expr collection :: .expr function :: _) =>
    if callee.name? = some helpers.renderListSlots then
      ofCallback helpers loops collection.text function
    else []
  | _ => []

/-- The offers in what a callback of the list helper returns. -/
def ofCallback (helpers : HelperNames) (loops : List Binding) (collection : String) :
    Expr → List Offer
  | .paren _ inner => ofCallback helpers loops collection inner
  | .function _ parameters (.expression value) =>
    ofElement helpers (⟨parameters.binding, collection⟩ :: loops) value
  | .function _ parameters (.block statements) =>
    ofReturned helpers (⟨parameters.binding, collection⟩ :: loops) statements
  | _ => []

/-- The offers in the first value that statements return. -/
def ofReturned (helpers : HelperNames) (loops : List Binding) : List Statement → List Offer
  | [] => []
  | .returning value :: _ => ofElement helpers loops value
  | _ :: statements => ofReturned helpers loops statements

end

/-- The offers of an item of the array, which stands in no call of the list helper. -/
def ofItem (helpers : HelperNames) : Item → List Offer
  | .expr value => ofElement helpers [] value
  | _ => []

/-- The offers of an array of slots that may be there. -/
def ofArray (helpers : HelperNames) : Expr → List Offer
  | .paren _ inner => ofArray helpers inner
  | .array _ items => items.flatMap (ofItem helpers)
  | _ => []

/-- The offers of an object of slots. -/
def ofObject (helpers : HelperNames) : Expr → List Offer
  | .paren _ inner => ofObject helpers inner
  | .object _ members => members.filterMap (ofMember? helpers)
  | _ => []

/-- The offers of a call of the helper that joins slots: those of an object of slots that are always
there, then those of an array of slots that may be. -/
def ofCreated (helpers : HelperNames) : List Item → List Offer
  | .expr always :: .expr maybe :: _ => ofObject helpers always ++ ofArray helpers maybe
  | .expr always :: _ => ofObject helpers always
  | _ => []

/-- The offers of the slots given to a component. -/
def ofSlots (helpers : HelperNames) : Expr → List Offer
  | .paren _ inner => ofSlots helpers inner
  | .object _ members => members.filterMap (ofMember? helpers)
  | .function _ parameters _ => [⟨"default", parameters.scope, []⟩]
  | .call _ callee arguments =>
    if callee.name? = some helpers.createSlots then ofCreated helpers arguments
    else
      [⟨"default", (firstCallback? helpers arguments).bind fun function => function.parameters.scope,
        []⟩]
  | _ => []

/-- The offers of a call of the component helper. -/
def ofArguments (helpers : HelperNames) : List Item → List Offer
  | .expr _ :: .expr _ :: .expr slots :: _ => ofSlots helpers slots
  | _ => []

end Offer

/-- Actions that make a node for each offer, in order. -/
def OfferRow (actions : List Action) (offers : List Offer) : Prop :=
  List.Forall₂ (fun action offer => ∃ offset inside, action = .within offer.kind offset inside)
    actions offers

/-! ## Actions for slots -/

/-- Each of some actions makes a node; none of them stops the walk at once. -/
def NoneRejected (actions : List Action) : Prop :=
  ∀ construct offset, Action.reject construct offset ∉ actions

variable {helpers : HelperNames} {actions more : List Action} {offers others : List Offer}

theorem noneRejected_append :
    NoneRejected (actions ++ more) ↔ NoneRejected actions ∧ NoneRejected more := by
  simp only [NoneRejected, List.mem_append, not_or, forall_and]

theorem not_noneRejected (construct : Construct) (offset : Nat) :
    ¬NoneRejected (.reject construct offset :: actions) :=
  fun accepted => accepted construct offset List.mem_cons_self

theorem OfferRow.append (first : OfferRow actions offers) (second : OfferRow more others) :
    OfferRow (actions ++ more) (offers ++ others) :=
  List.rel_append first second

theorem offerRow_slotAction (name : String) (function : Callback) (loops : List Binding)
    (offset : Nat) :
    OfferRow [slotAction name function loops.head? offset]
      [⟨name, function.parameters.scope, loops⟩] :=
  .cons ⟨offset, function.inside, rfl⟩ .nil

/-- The members of an object make a slot each, but for its flag. -/
theorem offerRow_slotMembers (members : List Member)
    (accepted : NoneRejected (slotMembers helpers members)) :
    OfferRow (slotMembers helpers members) (members.filterMap (Offer.ofMember? helpers)) := by
  induction members with
  | nil => exact .nil
  | cons member members induction =>
      cases member with
      | spread place value => exact absurd accepted (not_noneRejected _ _)
      | property place key label value =>
          rw [slotMembers] at accepted ⊢
          by_cases flag : label = some "_"
          · rw [if_pos flag] at accepted ⊢
            rw [List.filterMap_cons_none (by rw [Offer.ofMember?, if_pos flag])]
            exact induction accepted
          · rw [if_neg flag] at accepted ⊢
            rw [List.filterMap_cons_some (by rw [Offer.ofMember?, if_neg flag])]
            cases found : slotFunction? helpers value with
            | none =>
                simp only [found] at accepted
                exact absurd accepted (not_noneRejected _ _)
            | some function =>
                simp only [found] at accepted ⊢
                rw [← List.singleton_append, noneRejected_append] at accepted
                refine .cons ⟨place.start, function.inside, ?_⟩ (induction accepted.2)
                rw [slotAction, Offer.kind, Offer.scopeOf, found]
                rfl

mutual

/-- An element of the array makes a slot for each descriptor in it. -/
theorem offerRow_dynamicSlot (loops : List Binding) (value : Expr)
    (accepted : NoneRejected (dynamicSlot helpers loops.head? value)) :
    OfferRow (dynamicSlot helpers loops.head? value) (Offer.ofElement helpers loops value) := by
  have nullish (here : dynamicSlot helpers loops.head? value =
      if value.isNullish then [] else [.reject (.dynamicSlot value.text) value.start]) :
      OfferRow (dynamicSlot helpers loops.head? value) [] := by
    rw [here] at accepted ⊢
    split at accepted
    · rename_i empty
      rw [if_pos empty]
      exact .nil
    · exact absurd accepted (not_noneRejected _ _)
  cases value with
  | paren place inner =>
      rw [dynamicSlot] at accepted ⊢
      exact offerRow_dynamicSlot loops inner accepted
  | object place members =>
      rw [dynamicSlot] at accepted ⊢
      rw [Offer.ofElement, Offer.ofDescriptor]
      cases named : labelled? "name" members with
      | none =>
          simp only [named] at accepted
          exact absurd accepted (not_noneRejected _ _)
      | some name =>
          simp only [named] at accepted ⊢
          cases found : labelledFunction? helpers "fn" members with
          | none =>
              simp only [found] at accepted
              exact absurd accepted (not_noneRejected _ _)
          | some function => exact offerRow_slotAction (slotName name) function loops place.start
  | conditional place test yes no =>
      rw [dynamicSlot, noneRejected_append] at accepted
      rw [dynamicSlot, Offer.ofElement]
      exact (offerRow_dynamicSlot loops yes accepted.1).append
        (offerRow_dynamicSlot loops no accepted.2)
  | call place callee arguments =>
      rw [dynamicSlot] at accepted ⊢
      by_cases listed : callee.name? = some helpers.renderListSlots
      · rw [if_pos listed] at accepted ⊢
        rw [listedSlots.eq_def] at accepted ⊢
        split at accepted
        · exact absurd accepted (not_noneRejected _ _)
        · exact absurd accepted (not_noneRejected _ _)
        · rw [Offer.ofElement, if_pos listed]
          exact offerRow_returnedSlots loops place _ _ accepted
        · exact absurd accepted (not_noneRejected _ _)
      · rw [if_neg listed] at accepted
        exact absurd accepted (not_noneRejected _ _)
  | _ => exact nullish (by simp only [dynamicSlot])

/-- A callback of the list helper makes a slot for each descriptor in what it returns. -/
theorem offerRow_returnedSlots (loops : List Binding) (place : Extent) (collection : String)
    (function : Expr) (accepted : NoneRejected (returnedSlots helpers place collection function)) :
    OfferRow (returnedSlots helpers place collection function)
      (Offer.ofCallback helpers loops collection function) := by
  cases function with
  | paren _ inner =>
      rw [returnedSlots] at accepted ⊢
      exact offerRow_returnedSlots loops place collection inner accepted
  | function start parameters body =>
      cases body with
      | expression value =>
          rw [returnedSlots] at accepted ⊢
          exact offerRow_dynamicSlot (⟨parameters.binding, collection⟩ :: loops) value accepted
      | block statements =>
          rw [returnedSlots] at accepted ⊢
          exact offerRow_firstReturned loops start.start ⟨parameters.binding, collection⟩ statements
            accepted
  | _ =>
      simp only [returnedSlots] at accepted
      exact absurd accepted (not_noneRejected _ _)

/-- Statements make a slot for each descriptor in the first value that they return. -/
theorem offerRow_firstReturned (loops : List Binding) (start : Nat) (loop : Binding)
    (statements : List Statement)
    (accepted : NoneRejected (firstReturned helpers start loop statements)) :
    OfferRow (firstReturned helpers start loop statements)
      (Offer.ofReturned helpers (loop :: loops) statements) := by
  match statements, accepted with
  | [], accepted => exact absurd accepted (not_noneRejected _ _)
  | .returning value :: _, accepted =>
      rw [firstReturned] at accepted ⊢
      exact offerRow_dynamicSlot (loop :: loops) value accepted
  | statement :: statements, accepted =>
      by_cases returns : ∃ value, statement = .returning value
      · obtain ⟨value, rfl⟩ := returns
        rw [firstReturned] at accepted ⊢
        exact offerRow_dynamicSlot (loop :: loops) value accepted
      · have other : ∀ value, statement ≠ .returning value := not_exists.mp returns
        rw [firstReturned.eq_3 _ _ _ _ _ other] at accepted ⊢
        rw [Offer.ofReturned.eq_3 _ _ _ _ other]
        exact offerRow_firstReturned loops start loop statements accepted

end

theorem offerRow_slotItems (items : List Item) (accepted : NoneRejected (slotItems helpers items)) :
    OfferRow (slotItems helpers items) (items.flatMap (Offer.ofItem helpers)) := by
  induction items with
  | nil => exact .nil
  | cons item items induction =>
      cases item with
      | expr value =>
          rw [slotItems, noneRejected_append] at accepted
          rw [slotItems, List.flatMap_cons, Offer.ofItem]
          exact (offerRow_dynamicSlot [] value accepted.1).append (induction accepted.2)
      | spread place value => exact absurd accepted (not_noneRejected _ _)
      | hole => exact induction accepted

theorem offerRow_slotArray (maybe : Expr) (accepted : NoneRejected (slotArray helpers maybe)) :
    OfferRow (slotArray helpers maybe) (Offer.ofArray helpers maybe) := by
  fun_induction Offer.ofArray helpers maybe with
  | case1 place inner induction =>
      rw [slotArray] at accepted ⊢
      exact induction accepted
  | case2 place items =>
      rw [slotArray] at accepted ⊢
      exact offerRow_slotItems items accepted
  | case3 maybe no_paren no_array =>
      rw [slotArray.eq_3 _ _ no_paren no_array] at accepted
      exact absurd accepted (not_noneRejected _ _)

/-- A value for no slots makes none. -/
theorem offerRow_nullish {value : Expr} {reject : Action} (construct : Construct) (offset : Nat)
    (reject_eq : reject = .reject construct offset)
    (accepted : NoneRejected (if value.isNullish then [] else [reject])) :
    OfferRow (if value.isNullish then [] else [reject]) [] := by
  subst reject_eq
  by_cases empty : value.isNullish
  · rw [if_pos empty]
    exact .nil
  · rw [if_neg empty] at accepted
    exact absurd accepted (not_noneRejected _ _)

theorem offerRow_staticSlots (always : Expr) (accepted : NoneRejected (staticSlots helpers always)) :
    OfferRow (staticSlots helpers always) (Offer.ofObject helpers always) := by
  fun_induction Offer.ofObject helpers always with
  | case1 place inner induction =>
      rw [staticSlots] at accepted ⊢
      exact induction accepted
  | case2 place members =>
      rw [staticSlots] at accepted ⊢
      exact offerRow_slotMembers members accepted
  | case3 always no_paren no_object =>
      rw [staticSlots.eq_3 _ _ no_paren no_object] at accepted ⊢
      exact offerRow_nullish _ _ rfl accepted

theorem offerRow_createdSlots (arguments : List Item)
    (accepted : NoneRejected (createdSlots helpers arguments)) :
    OfferRow (createdSlots helpers arguments) (Offer.ofCreated helpers arguments) := by
  match arguments, accepted with
  | [], _ => exact .nil
  | .hole :: _, _ => exact .nil
  | .spread .. :: _, accepted => exact absurd accepted (not_noneRejected _ _)
  | .expr always :: .expr maybe :: _, accepted =>
      rw [createdSlots, noneRejected_append] at accepted
      exact (offerRow_staticSlots always accepted.1).append (offerRow_slotArray maybe accepted.2)
  | .expr always :: .spread .. :: _, accepted =>
      rw [createdSlots, noneRejected_append] at accepted
      exact absurd accepted.2 (not_noneRejected _ _)
  | .expr always :: .hole :: _, accepted => exact offerRow_staticSlots always accepted
  | [.expr always], accepted => exact offerRow_staticSlots always accepted

/-- The slots that are given to a component. -/
theorem offerRow_slotsActions (offset : Nat) (slots : Expr)
    (accepted : NoneRejected (slotsActions helpers offset slots)) :
    OfferRow (slotsActions helpers offset slots) (Offer.ofSlots helpers slots) := by
  fun_induction Offer.ofSlots helpers slots with
  | case1 place inner induction =>
      rw [slotsActions] at accepted ⊢
      exact induction accepted
  | case2 place members =>
      rw [slotsActions] at accepted ⊢
      exact offerRow_slotMembers members accepted
  | case3 place parameters body =>
      rw [slotsActions]
      exact offerRow_slotAction "default" _ [] offset
  | case4 place callee arguments created =>
      rw [slotsActions, if_pos created] at accepted ⊢
      exact offerRow_createdSlots arguments accepted
  | case5 place callee arguments other =>
      rw [slotsActions, if_neg other] at accepted ⊢
      split at accepted
      · rename_i wrapped
        rw [if_pos wrapped]
        cases found : firstCallback? helpers arguments with
        | none =>
            simp only [found] at accepted
            exact absurd accepted (not_noneRejected _ _)
        | some function => exact offerRow_slotAction "default" function [] offset
      · exact absurd accepted (not_noneRejected _ _)
  | case6 slots no_paren no_object no_function no_call =>
      rw [slotsActions.eq_5 _ _ _ no_paren no_object no_function no_call] at accepted ⊢
      exact offerRow_nullish _ _ rfl accepted

end Script

/-! ## Nodes for slots -/

namespace Spine

variable {before after : Spine} {actions : List Action} {offers : List Script.Offer}

theorem noneRejected_of_actAll (steps : before.actAll actions = .ok after) :
    Script.NoneRejected actions := by
  intro construct offset found
  obtain ⟨front, back, rfl⟩ := List.append_of_mem found
  rw [actAll_append] at steps
  obtain ⟨next, -, rest⟩ := bind_eq_ok.mp steps
  cases rest

/-- A row of actions for slots adds a branch for each. -/
theorem offerRow_eq_ok (row : Script.OfferRow actions offers)
    (steps : before.actAll actions = .ok after) :
    ∃ branches, after = before.addAll branches ∧
      branches.map Branch.kind = offers.map Script.Offer.kind := by
  induction row generalizing before with
  | nil =>
      cases steps
      exact ⟨[], (addAll_nil _).symm, rfl⟩
  | @cons action offer _ _ here _ induction =>
      obtain ⟨offset, inside, rfl⟩ := here
      rw [actAll] at steps
      obtain ⟨next, step, steps⟩ := bind_eq_ok.mp steps
      obtain ⟨done, rfl⟩ := within_eq_ok (by simp [Script.Offer.kind, Kind.isElement]) step
      obtain ⟨branches, rfl, kinds⟩ := induction steps
      exact ⟨_, addAll_add _ _ branches, by rw [List.map_cons, List.map_cons, kinds]; rfl⟩

/-- A component holds nothing but what is made for its slots. -/
theorem within_component_eq_ok {reference props : String} {offset : Nat}
    (row : Script.NoneRejected actions → Script.OfferRow actions offers)
    (steps : before.actAll [.within (.component reference props) offset actions] = .ok after) :
    ∃ branches, after = before.addAll [.node (.component reference props) branches] ∧
      branches.map Branch.kind = offers.map Script.Offer.kind := by
  rw [actAll] at steps
  obtain ⟨next, step, rest⟩ := bind_eq_ok.mp steps
  cases rest
  rw [act] at step
  obtain ⟨inner, entered, step⟩ := bind_eq_ok.mp step
  obtain ⟨last, acted, left⟩ := bind_eq_ok.mp step
  obtain ⟨-, rfl⟩ := enter_eq_ok.mp entered
  obtain ⟨branches, rfl, kinds⟩ := offerRow_eq_ok (row (noneRejected_of_actAll acted)) acted
  obtain ⟨ended, ended_eq, -, rfl⟩ := leave_eq_ok left
  -- A component needs an end, so that nothing is ended with it.
  obtain rfl : ended = (before.opening (.component reference props)).addAll branches := by
    rcases ended_eq with rfl | rfl <;> rfl
  exact ⟨branches, rfl, kinds⟩

end Spine

/-- A call of the component helper makes a component with a node for each offer. -/
theorem Script.componentActions_offers {before after : Spine} {helpers : HelperNames}
    {place : Extent} {arguments : List Item}
    (steps : before.actAll (componentActions helpers place arguments) = .ok after) :
    ∃ reference props branches,
      after = before.addAll [.node (.component reference props) branches] ∧
        branches.map Branch.kind = (Offer.ofArguments helpers arguments).map Offer.kind := by
  have bare (reference props : String)
      (steps : before.actAll [.within (.component reference props) place.start []] = .ok after) :
      ∃ reference props branches,
        after = before.addAll [.node (.component reference props) branches] ∧
          branches.map Branch.kind = ([] : List Offer).map Offer.kind :=
    ⟨reference, props, Spine.within_component_eq_ok (fun _ => .nil) steps⟩
  match arguments, steps with
  | .expr reference :: .expr props :: .expr slots :: _, steps =>
      exact ⟨_, _, Spine.within_component_eq_ok (offerRow_slotsActions place.start slots) steps⟩
  | .expr reference :: .expr props :: .spread .. :: _, steps =>
      exact ⟨_, _, Spine.within_component_eq_ok
        (fun accepted => absurd accepted (not_noneRejected _ _)) steps⟩
  | .expr reference :: .expr props :: .hole :: _, steps => exact bare _ _ steps
  | [.expr reference, .expr props], steps => exact bare _ _ steps
  | .expr reference :: .spread .. :: _, steps => cases steps
  | .expr reference :: .hole :: _, steps => exact bare _ _ steps
  | [.expr reference], steps => exact bare _ _ steps
  | .spread .. :: _, steps => cases steps
  | .hole :: _, steps => cases steps
  | [], steps => cases steps

namespace Builder

/-- A call of the component helper that is walked to its end makes one component with what is below
it, and the component has one node for each offer of the call, in the order of the source. -/
theorem Reached.component_slots {before after : Builder} (reached : before.Reached)
    {helpers : HelperNames} {place : Script.Extent} {arguments : List Script.Item}
    (steps : before.actAll (Script.componentActions helpers place arguments) = .ok after) :
    ∃ reference props, before.Grows after [before.tree.size] ∧
      after.tree.kind before.tree.size = .component reference props ∧
      (after.tree.children before.tree.size).map after.tree.kind =
        (Script.Offer.ofArguments helpers arguments).map Script.Offer.kind := by
  obtain ⟨spine, rfl, -⟩ := reached.exists_spine
  rw [Spine.actAll_builder] at steps
  obtain ⟨last, acted, rfl⟩ := map_eq_ok.mp steps
  obtain ⟨reference, props, branches, rfl, kinds⟩ := Script.componentActions_offers acted
  have holds := Spine.holds_addAll spine [.node (.component reference props) branches]
  rw [Branch.entriesAll, Branch.entriesAll, List.append_nil, Branch.entries] at holds
  have entry := holds.head
  rw [Spine.size_builder]
  refine ⟨reference, props, Spine.grows_addAll spine _, ?_, ?_⟩
  · rw [Tree.kind, entry]
    rfl
  · rw [← kinds, ← holds.tail.kinds, Tree.children, entry]
    rfl

/-- The arguments of a call with the given slots for a component. -/
def givenSlots (always : List Script.Member) (maybe : List Script.Expr) : List Script.Item :=
  [.expr (.other ⟨21, "Child"⟩), .expr (.null ⟨28, "null"⟩),
    .expr (.call default (.identifier default "_createSlots")
      [.expr (.object default always), .expr (.array default (maybe.map .expr))])]

/-- A descriptor for a slot with nothing in it. -/
def descriptor (name : String) : Script.Expr :=
  .object default
    [.property default ⟨40, "name"⟩ (some "name") (.string default name),
      .property default ⟨45, "fn"⟩ (some "fn") (.function default ⟨["props"], none⟩ (.block []))]

/-- A call of the list helper for slots. -/
def listed (item collection : String) (value : Script.Expr) : Script.Expr :=
  .call default (.identifier default "_renderList")
    [.expr (.other ⟨60, collection⟩), .expr (.function default ⟨[item], none⟩ (.expression value))]

/-- A slot that is always there next to a flag, one under a condition and one for each item. -/
theorem component_slots_everyShape :
    ∃ after, start.actAll (Script.componentActions .usual default (givenSlots
        [.property default ⟨30, "header"⟩ (some "header") (.function default ⟨[], none⟩ (.block [])),
          .property default ⟨35, "_"⟩ (some "_") (.other ⟨38, "2"⟩)]
        [.conditional default (.other ⟨50, "shown"⟩) (descriptor "a")
            (.identifier default "undefined"),
          listed "item" "items" (descriptor "b")])) = .ok after ∧
      ∃ reference props, start.Grows after [1] ∧
        after.tree.kind 1 = .component reference props ∧
        (after.tree.children 1).map after.tree.kind =
          [.slot "header" none none, .slot "a" (some "props") none,
            .slot "b" (some "props") (some ⟨"item", "items"⟩)] := by
  obtain ⟨after, steps⟩ := exists_eq_ok (start.actAll (Script.componentActions .usual default
    (givenSlots
      [.property default ⟨30, "header"⟩ (some "header") (.function default ⟨[], none⟩ (.block [])),
        .property default ⟨35, "_"⟩ (some "_") (.other ⟨38, "2"⟩)]
      [.conditional default (.other ⟨50, "shown"⟩) (descriptor "a") (.identifier default "undefined"),
        listed "item" "items" (descriptor "b")]))) (by decide +kernel)
  exact ⟨after, steps, Reached.start.component_slots steps⟩

/-- Of two calls of the list helper around a descriptor, the slot knows the inner one only. -/
theorem component_slots_nestedLists :
    ∃ after, start.actAll (Script.componentActions .usual default (givenSlots []
        [listed "x" "a" (listed "y" "b" (descriptor "s"))])) = .ok after ∧
      (Script.Offer.ofArguments .usual (givenSlots []
        [listed "x" "a" (listed "y" "b" (descriptor "s"))])).map Script.Offer.loops =
          [[⟨"y", "b"⟩, ⟨"x", "a"⟩]] ∧
      (after.tree.children 1).map after.tree.kind =
        [.slot "s" (some "props") (some ⟨"y", "b"⟩)] :=
  ⟨⟨⟨#[⟨.root, none, #[1]⟩, ⟨.component "Child" "null", some 0, #[2]⟩,
      ⟨.slot "s" (some "props") (some ⟨"y", "b"⟩), some 1, #[]⟩]⟩, []⟩,
    eq_ok_of_toOption (by decide +kernel), by decide +kernel, by decide +kernel⟩

end Builder

end IslandSlots
