import IslandSlots.Render.Reading

/-!
# The arrangement of actions

The actions that are read from a script stand in rows of two kinds. Under a component there are
slots and nothing else. Everywhere else there are chunks of markup, nodes of control flow, and
nodes for what cannot be told; an alternative of a condition stands right after a conditional.
Whatever the script says, its actions are arranged like this.
-/

namespace IslandSlots

namespace Action

/-- Where actions stand in a row. -/
inductive Row where
  /-- Under a node that holds content. The flag says whether a conditional stands right before. -/
  | content (afterConditional : Bool)
  /-- Under a component. -/
  | slots

namespace Row

/-- The row after a node that is no conditional. -/
def onward : Row → Row
  | content _ => content false
  | slots => slots

end Row

/-- Actions that stand where they may. What comes after a rejection is never done. -/
inductive Arranged : Row → List Action → Prop where
  | nil (row : Row) : Arranged row []
  | feed {after : Bool} (chunk : Markup) (offset : Nat) {rest : List Action} :
      Arranged (.content false) rest → Arranged (.content after) (.feed chunk offset :: rest)
  | invalid {after : Bool} (offset : Nat) {rest : List Action} :
      Arranged (.content false) rest → Arranged (.content after) (.place .invalid offset :: rest)
  | reject (row : Row) (construct : Construct) (offset : Nat) (rest : List Action) :
      Arranged row (.reject construct offset :: rest)
  | conditional {after chained : Bool} (test : String) (offset : Nat) {inside rest : List Action} :
      (chained → after) → Arranged (.content false) inside → Arranged (.content true) rest →
        Arranged (.content after) (.within (.conditional test chained) offset inside :: rest)
  | otherwise (offset : Nat) {inside rest : List Action} :
      Arranged (.content false) inside → Arranged (.content false) rest →
        Arranged (.content true) (.within .otherwise offset inside :: rest)
  | iteration {after : Bool} (left right : String) (offset : Nat) {inside rest : List Action} :
      Arranged (.content false) inside → Arranged (.content false) rest →
        Arranged (.content after) (.within (.iteration left right) offset inside :: rest)
  | component {after : Bool} (reference props : String) (offset : Nat)
      {inside rest : List Action} :
      Arranged .slots inside → Arranged (.content false) rest →
        Arranged (.content after) (.within (.component reference props) offset inside :: rest)
  | slot (name : String) (scope : Option String) (loop : Option Binding) (offset : Nat)
      {inside rest : List Action} :
      Arranged (.content false) inside → Arranged .slots rest →
        Arranged .slots (.within (.slot name scope loop) offset inside :: rest)

namespace Arranged

variable {row : Row} {after : Bool} {first second : List Action}

/-- What needs no conditional before it may stand after one. -/
theorem weaken (arranged : Arranged (.content false) first) : Arranged (.content after) first := by
  cases arranged with
  | nil => exact .nil _
  | feed chunk offset rest => exact .feed chunk offset rest
  | invalid offset rest => exact .invalid offset rest
  | reject _ construct offset rest => exact .reject _ construct offset rest
  | conditional test offset chained inside rest =>
      exact .conditional test offset (fun chain => absurd (chained chain) Bool.false_ne_true)
        inside rest
  | iteration left right offset inside rest => exact .iteration left right offset inside rest
  | component reference props offset inside rest =>
      exact .component reference props offset inside rest

theorem of_onward (arranged : Arranged row.onward first) : Arranged row first := by
  cases row with
  | content after => exact arranged.weaken
  | slots => exact arranged

theorem append (front : Arranged row first) (back : Arranged row.onward second) :
    Arranged row (first ++ second) := by
  induction front with
  | nil => exact back.of_onward
  | feed chunk offset _ induction => exact .feed chunk offset (induction back)
  | invalid offset _ induction => exact .invalid offset (induction back)
  | reject row construct offset rest => exact .reject row construct offset _
  | conditional test offset chained inside _ _ induction =>
      exact .conditional test offset chained inside (induction back)
  | otherwise offset inside _ _ induction => exact .otherwise offset inside (induction back)
  | iteration left right offset inside _ _ induction =>
      exact .iteration left right offset inside (induction back)
  | component reference props offset inside _ _ induction =>
      exact .component reference props offset inside (induction back)
  | slot name scope loop offset inside _ _ induction =>
      exact .slot name scope loop offset inside (induction back)

end Arranged

end Action

namespace Script

open IslandSlots.Action

/-- A slot with arranged content is arranged. -/
theorem arranged_slotAction {name : String} {function : Callback} {loop : Option Binding}
    {offset : Nat} {rest : List Action} (inside : Arranged (.content false) function.inside)
    (after : Arranged .slots rest) :
    Arranged .slots (slotAction name function loop offset :: rest) :=
  .slot _ _ _ _ inside after

theorem arranged_rejectSpread (row : Row) (place : Extent) : Arranged row (rejectSpread place) :=
  .reject row _ _ []

/-- Slots that are nothing are passed over, and other ones that are not understood are rejected. -/
theorem arranged_unlessNullish (slots : Expr) (construct : Construct) (offset : Nat) :
    Arranged .slots (if slots.isNullish then [] else [.reject construct offset]) := by
  split
  · exact .nil _
  · exact .reject _ _ _ _

mutual

/-- The actions of an expression are arranged. -/
theorem arranged_actions (helpers : HelperNames) (expr : Expr) :
    Arranged (.content false) (actions helpers expr) := by
  cases expr with
  | call place callee arguments =>
      rw [actions]
      split
      · exact arranged_pushActions helpers place arguments
      · split
        · exact arranged_listActions helpers place arguments
        · split
          · exact arranged_componentActions helpers place arguments
          · exact (arranged_actions helpers callee).append (arranged_itemActions helpers arguments)
  | conditional place test yes no =>
      rw [actions]
      split
      · exact .conditional _ _ (by simp) (arranged_actions helpers yes)
          (.otherwise _ (arranged_actions helpers no) (.nil _))
      · exact ((arranged_actions helpers test).append (arranged_actions helpers yes)).append
          (arranged_actions helpers no)
  | function place parameters body =>
      rw [actions]
      exact arranged_bodyActions helpers body
  | paren place inner =>
      rw [actions]
      exact arranged_actions helpers inner
  | construct place arguments =>
      rw [actions]
      exact arranged_itemActions helpers arguments
  | sequence place parts =>
      rw [actions]
      exact arranged_allActions helpers parts
  | array place items =>
      rw [actions]
      exact arranged_itemActions helpers items
  | assign place value =>
      rw [actions]
      exact arranged_actions helpers value
  | binary place left right =>
      rw [actions]
      exact (arranged_actions helpers left).append (arranged_actions helpers right)
  | unary place operand =>
      rw [actions]
      exact arranged_actions helpers operand
  | member place object =>
      rw [actions]
      exact arranged_actions helpers object
  | chain place link =>
      cases link with
      | call _ callee arguments =>
          rw [actions]
          exact (arranged_actions helpers callee).append (arranged_itemActions helpers arguments)
      | _ =>
          simp only [actions]
          exact .nil _
  | object place members =>
      rw [actions]
      exact arranged_memberActions helpers members
  | template place texts holes =>
      rw [actions]
      exact arranged_allActions helpers holes
  | tagged place holes =>
      rw [actions]
      exact arranged_allActions helpers holes
  | _ =>
      simp only [actions]
      exact .nil _

theorem arranged_allActions (helpers : HelperNames) (exprs : List Expr) :
    Arranged (.content false) (allActions helpers exprs) := by
  cases exprs with
  | nil => exact .nil _
  | cons expr exprs =>
      exact (arranged_actions helpers expr).append (arranged_allActions helpers exprs)

theorem arranged_itemActions (helpers : HelperNames) (items : List Item) :
    Arranged (.content false) (itemActions helpers items) := by
  cases items with
  | nil => exact .nil _
  | cons item items =>
      cases item with
      | expr value =>
          exact (arranged_actions helpers value).append (arranged_itemActions helpers items)
      | spread place value =>
          exact (arranged_actions helpers value).append (arranged_itemActions helpers items)
      | hole => exact arranged_itemActions helpers items

theorem arranged_memberActions (helpers : HelperNames) (members : List Member) :
    Arranged (.content false) (memberActions helpers members) := by
  cases members with
  | nil => exact .nil _
  | cons member members =>
      cases member with
      | property place key label value =>
          exact (arranged_actions helpers value).append (arranged_memberActions helpers members)
      | spread place value =>
          exact (arranged_actions helpers value).append (arranged_memberActions helpers members)

theorem arranged_bodyActions (helpers : HelperNames) (body : Body) :
    Arranged (.content false) (bodyActions helpers body) := by
  cases body with
  | expression value => exact arranged_actions helpers value
  | block statements => exact arranged_statementsActions helpers statements

theorem arranged_statementActions (helpers : HelperNames) (statement : Statement) :
    Arranged (.content false) (statementActions helpers statement) := by
  cases statement with
  | expression value => exact arranged_actions helpers value
  | branch start test yes no =>
      rw [statementActions]
      split
      · exact arranged_statementActions helpers yes
      · exact .conditional _ _ (by simp) (arranged_statementActions helpers yes)
          (arranged_alternativeActions helpers no)
  | block statements => exact arranged_statementsActions helpers statements
  | returning value => exact arranged_actions helpers value
  | throwing value => exact arranged_actions helpers value
  | «variables» declarators => exact arranged_declaratorActions helpers declarators
  | around body => exact arranged_statementActions helpers body
  | function => exact .nil _
  | exported place declaration => exact .reject _ _ _ _
  | exportedDefault place declaration => exact .reject _ _ _ _
  | inert => exact .nil _
  | other place => exact .reject _ _ _ _

/-- What follows the first branch of an `if` is arranged after a conditional. -/
theorem arranged_alternativeActions (helpers : HelperNames) (no : Alternative) :
    Arranged (.content true) (alternativeActions helpers no) := by
  cases no with
  | missing => exact .nil _
  | otherwise start statement =>
      cases statement with
      | branch start test yes no =>
          exact .conditional _ _ (fun _ => rfl) (arranged_statementActions helpers yes)
            (arranged_alternativeActions helpers no)
      | _ => exact .otherwise _ (arranged_statementActions helpers _) (.nil _)

theorem arranged_statementsActions (helpers : HelperNames) (statements : List Statement) :
    Arranged (.content false) (statementsActions helpers statements) := by
  cases statements with
  | nil => exact .nil _
  | cons statement statements =>
      exact (arranged_statementActions helpers statement).append
        (arranged_statementsActions helpers statements)

theorem arranged_declaratorActions (helpers : HelperNames) (declarators : List Declarator) :
    Arranged (.content false) (declaratorActions helpers declarators) := by
  cases declarators with
  | nil => exact .nil _
  | cons declarator declarators =>
      cases declarator with
      | bare pattern => exact arranged_declaratorActions helpers declarators
      | initialized pattern value =>
          exact (arranged_actions helpers value).append
            (arranged_declaratorActions helpers declarators)

theorem arranged_pushActions (helpers : HelperNames) (place : Extent) (arguments : List Item) :
    Arranged (.content false) (pushActions helpers place arguments) := by
  match arguments with
  | [] => exact .reject _ _ _ _
  | .spread spread _ :: _ => exact arranged_rejectSpread _ _
  | [.expr value] => exact arranged_pushedActions helpers value
  | .expr _ :: _ :: _ => exact .reject _ _ _ _
  | .hole :: _ => exact .reject _ _ _ _

theorem arranged_pushedActions (helpers : HelperNames) (value : Expr) :
    Arranged (.content false) (pushedActions helpers value) := by
  cases value with
  | paren place inner => exact arranged_pushedActions helpers inner
  | call place callee arguments =>
      rw [pushedActions]
      split
      · exact arranged_componentActions helpers place arguments
      · exact .feed _ _ (.nil _)
  | template place texts holes => exact .feed _ _ (.nil _)
  | string place value => exact .feed _ _ (.nil _)
  | _ => exact .invalid _ (.nil _)

theorem arranged_listActions (helpers : HelperNames) (place : Extent) (arguments : List Item) :
    Arranged (.content false) (listActions helpers place arguments) := by
  match arguments with
  | .spread spread _ :: _ => exact arranged_rejectSpread _ _
  | .expr _ :: .spread spread _ :: _ => exact arranged_rejectSpread _ _
  | .hole :: .spread spread _ :: _ => exact arranged_rejectSpread _ _
  | .expr collection :: .expr function :: rest =>
      rw [listActions]
      split
      · rename_i found
        exact .iteration _ _ _ (arranged_callback? helpers function _ found) (.nil _)
      · exact .reject _ _ _ _
  | [] => exact .reject _ _ _ _
  | [.expr _] => exact .reject _ _ _ _
  | [.hole] => exact .reject _ _ _ _
  | .expr _ :: .hole :: _ => exact .reject _ _ _ _
  | .hole :: .expr _ :: _ => exact .reject _ _ _ _
  | .hole :: .hole :: _ => exact .reject _ _ _ _

/-- What a callback does is arranged. -/
theorem arranged_callback? (helpers : HelperNames) (expr : Expr) :
    ∀ function ∈ callback? helpers expr, Arranged (.content false) function.inside := by
  cases expr with
  | function place parameters body =>
      rintro function ⟨⟩
      exact arranged_bodyActions helpers body
  | paren place inner => exact arranged_callback? helpers inner
  | _ => rintro function ⟨⟩

theorem arranged_firstCallback? (helpers : HelperNames) (arguments : List Item) :
    ∀ function ∈ firstCallback? helpers arguments, Arranged (.content false) function.inside := by
  match arguments with
  | .expr value :: _ => exact arranged_callback? helpers value
  | [] => rintro function ⟨⟩
  | .spread _ _ :: _ => rintro function ⟨⟩
  | .hole :: _ => rintro function ⟨⟩

/-- What the function of a slot does is arranged. -/
theorem arranged_slotFunction? (helpers : HelperNames) (expr : Expr) :
    ∀ function ∈ slotFunction? helpers expr, Arranged (.content false) function.inside := by
  cases expr with
  | function place parameters body =>
      rintro function ⟨⟩
      exact arranged_bodyActions helpers body
  | paren place inner => exact arranged_slotFunction? helpers inner
  | call place callee arguments =>
      rw [slotFunction?]
      split
      · exact arranged_firstCallback? helpers arguments
      · rintro function ⟨⟩
  | _ => rintro function ⟨⟩

theorem arranged_labelledFunction? (helpers : HelperNames) (label : String)
    (members : List Member) :
    ∀ function ∈ labelledFunction? helpers label members,
      Arranged (.content false) function.inside := by
  match members with
  | [] => rintro function ⟨⟩
  | .property _ _ (some found) value :: rest =>
      rw [labelledFunction?]
      split
      · exact arranged_slotFunction? helpers value
      · exact arranged_labelledFunction? helpers label rest
  | .property _ _ none _ :: rest => exact arranged_labelledFunction? helpers label rest
  | .spread _ _ :: rest => exact arranged_labelledFunction? helpers label rest

theorem arranged_componentActions (helpers : HelperNames) (place : Extent)
    (arguments : List Item) :
    Arranged (.content false) (componentActions helpers place arguments) := by
  match arguments with
  | .spread spread _ :: _ => exact arranged_rejectSpread _ _
  | .expr _ :: .spread spread _ :: _ => exact arranged_rejectSpread _ _
  | .expr _ :: .expr _ :: .spread spread _ :: _ =>
      exact .component _ _ _ (arranged_rejectSpread _ _) (.nil _)
  | .expr _ :: .expr _ :: .expr slots :: _ =>
      exact .component _ _ _ (arranged_slotsActions helpers _ slots) (.nil _)
  | .expr _ :: .expr _ :: .hole :: _ => exact .component _ _ _ (.nil _) (.nil _)
  | [.expr _, .expr _] => exact .component _ _ _ (.nil _) (.nil _)
  | .expr _ :: .hole :: _ => exact .component _ _ _ (.nil _) (.nil _)
  | [.expr _] => exact .component _ _ _ (.nil _) (.nil _)
  | [] => exact .reject _ _ _ _
  | .hole :: _ => exact .reject _ _ _ _

/-- What is read from the slots of a component is arranged under a component. -/
theorem arranged_slotsActions (helpers : HelperNames) (offset : Nat) (slots : Expr) :
    Arranged .slots (slotsActions helpers offset slots) := by
  cases slots with
  | paren place inner => exact arranged_slotsActions helpers offset inner
  | object place members => exact arranged_slotMembers helpers members
  | function place parameters body =>
      exact arranged_slotAction (arranged_bodyActions helpers body) (.nil _)
  | call place callee arguments =>
      rw [slotsActions]
      split
      · exact arranged_createdSlots helpers arguments
      · split
        · split
          · rename_i found
            exact arranged_slotAction (arranged_firstCallback? helpers arguments _ found) (.nil _)
          · exact .reject _ _ _ _
        · exact .reject _ _ _ _
  | _ => exact arranged_unlessNullish _ _ _

theorem arranged_slotMembers (helpers : HelperNames) (members : List Member) :
    Arranged .slots (slotMembers helpers members) := by
  match members with
  | [] => exact .nil _
  | .spread _ _ :: _ => exact .reject _ _ _ _
  | .property _ _ _ value :: rest =>
      rw [slotMembers]
      split
      · exact arranged_slotMembers helpers rest
      · split
        · rename_i found
          exact arranged_slotAction (arranged_slotFunction? helpers value _ found)
            (arranged_slotMembers helpers rest)
        · exact .reject _ _ _ _

theorem arranged_createdSlots (helpers : HelperNames) (arguments : List Item) :
    Arranged .slots (createdSlots helpers arguments) := by
  match arguments with
  | .spread spread _ :: _ => exact arranged_rejectSpread _ _
  | .expr always :: .spread spread _ :: _ =>
      exact (arranged_staticSlots helpers always).append (arranged_rejectSpread _ _)
  | .expr always :: .expr maybe :: _ =>
      exact (arranged_staticSlots helpers always).append (arranged_slotArray helpers maybe)
  | [.expr always] => exact arranged_staticSlots helpers always
  | .expr always :: .hole :: _ => exact arranged_staticSlots helpers always
  | [] => exact .nil _
  | .hole :: _ => exact .nil _

theorem arranged_staticSlots (helpers : HelperNames) (slots : Expr) :
    Arranged .slots (staticSlots helpers slots) := by
  cases slots with
  | paren place inner => exact arranged_staticSlots helpers inner
  | object place members => exact arranged_slotMembers helpers members
  | _ => exact arranged_unlessNullish _ _ _

theorem arranged_slotArray (helpers : HelperNames) (slots : Expr) :
    Arranged .slots (slotArray helpers slots) := by
  cases slots with
  | paren place inner => exact arranged_slotArray helpers inner
  | array place items => exact arranged_slotItems helpers items
  | _ => exact .reject _ _ _ _

theorem arranged_slotItems (helpers : HelperNames) (items : List Item) :
    Arranged .slots (slotItems helpers items) := by
  match items with
  | [] => exact .nil _
  | .hole :: rest => exact arranged_slotItems helpers rest
  | .spread _ _ :: _ => exact .reject _ _ _ _
  | .expr value :: rest =>
      exact (arranged_dynamicSlot helpers none value).append (arranged_slotItems helpers rest)

theorem arranged_dynamicSlot (helpers : HelperNames) (loop : Option Binding) (slot : Expr) :
    Arranged .slots (dynamicSlot helpers loop slot) := by
  cases slot with
  | paren place inner => exact arranged_dynamicSlot helpers loop inner
  | object place members =>
      rw [dynamicSlot]
      split
      · exact .reject _ _ _ _
      · split
        · rename_i found
          exact arranged_slotAction (arranged_labelledFunction? helpers _ members _ found) (.nil _)
        · exact .reject _ _ _ _
  | conditional place test yes no =>
      exact (arranged_dynamicSlot helpers loop yes).append (arranged_dynamicSlot helpers loop no)
  | call place callee arguments =>
      rw [dynamicSlot]
      split
      · exact arranged_listedSlots helpers place arguments
      · exact .reject _ _ _ _
  | _ => exact arranged_unlessNullish _ _ _

theorem arranged_listedSlots (helpers : HelperNames) (place : Extent) (arguments : List Item) :
    Arranged .slots (listedSlots helpers place arguments) := by
  match arguments with
  | .spread spread _ :: _ => exact arranged_rejectSpread _ _
  | .expr _ :: .spread spread _ :: _ => exact arranged_rejectSpread _ _
  | .hole :: .spread spread _ :: _ => exact arranged_rejectSpread _ _
  | .expr collection :: .expr function :: _ =>
      exact arranged_returnedSlots helpers place collection.text function
  | [] => exact .reject _ _ _ _
  | [.expr _] => exact .reject _ _ _ _
  | [.hole] => exact .reject _ _ _ _
  | .expr _ :: .hole :: _ => exact .reject _ _ _ _
  | .hole :: .expr _ :: _ => exact .reject _ _ _ _
  | .hole :: .hole :: _ => exact .reject _ _ _ _

theorem arranged_returnedSlots (helpers : HelperNames) (place : Extent) (collection : String)
    (function : Expr) : Arranged .slots (returnedSlots helpers place collection function) := by
  match function with
  | .paren _ inner => exact arranged_returnedSlots helpers place collection inner
  | .function _ parameters (.expression value) => exact arranged_dynamicSlot helpers _ value
  | .function function parameters (.block statements) =>
      exact arranged_firstReturned helpers function.start _ statements
  | .identifier .. | .null .. | .string .. | .template .. | .tagged .. | .call .. | .chain ..
  | .construct .. | .member .. | .conditional .. | .binary .. | .unary .. | .assign ..
  | .sequence .. | .array .. | .object .. | .other .. => exact .reject _ _ _ _

theorem arranged_firstReturned (helpers : HelperNames) (start : Nat) (loop : Binding)
    (statements : List Statement) :
    Arranged .slots (firstReturned helpers start loop statements) := by
  cases statements with
  | nil => exact .reject _ _ _ _
  | cons statement rest =>
      cases statement with
      | returning value => exact arranged_dynamicSlot helpers _ value
      | _ => exact arranged_firstReturned helpers start loop rest

end

end Script

end IslandSlots
