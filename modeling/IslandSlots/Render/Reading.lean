import IslandSlots.Render.Action
import IslandSlots.Render.HelperNames
import IslandSlots.Script.Syntax

/-!
# Reading a render function

The actions of the statements of a render function. Calls of the push helper feed markup; `if`
statements, list helpers and component helpers open nodes around what is inside them; any other
expression is searched for such calls in the order in which its parts are written.
-/

namespace IslandSlots.Script

/-- A function given to a helper, with the actions of its body. -/
structure Callback where
  /-- The source of the function. -/
  place : Extent
  /-- What it binds. -/
  parameters : Parameters
  /-- What it does. -/
  inside : List Action

/-- The first line of a text, without the end of the line. -/
def firstLine (text : String) : String :=
  let line := text.toList.takeWhile (· ≠ '\n')
  if line.length < text.toList.length && line.getLast? = some '\r' then String.ofList line.dropLast
  else String.ofList line

/-- The action for a spread among the arguments that are looked at. -/
def rejectSpread (place : Extent) : List Action :=
  [.reject (.spreadArgument place.text) place.start]

/-- The chunk of a template literal: its raw texts and its expressions in turn. -/
def interleave : List String → List Expr → List Segment
  | [], _ => []
  | text :: texts, [] => .text text :: interleave texts []
  | text :: texts, hole :: holes => .text text :: .hole hole.text :: interleave texts holes

/-- The name of a slot given by an expression: the value of a string literal, else its source. -/
def slotName (name : Expr) : String :=
  match name.unparenthesized with
  | .string _ value => value
  | found => found.text

/-- The action for a slot whose content a function renders. -/
def slotAction (name : String) (function : Callback) (loop : Option Binding) (offset : Nat) :
    Action :=
  .within (.slot name function.parameters.scope loop) offset function.inside

mutual

/-- Whether an expression is a call that renders, or a sequence with such a part. -/
def renders (helpers : HelperNames) : Expr → Bool
  | .call _ callee _ =>
    callee.name?.any fun name =>
      name == helpers.push || name == helpers.renderList || name == helpers.renderComponent
  | .sequence _ parts => anyRenders helpers parts
  | .paren _ inner => renders helpers inner
  | _ => false

/-- Whether one of some expressions renders. -/
def anyRenders (helpers : HelperNames) : List Expr → Bool
  | [] => false
  | expr :: exprs => renders helpers expr || anyRenders helpers exprs

end

mutual

/-- The actions of an expression. -/
def actions (helpers : HelperNames) : Expr → List Action
  | .call place callee arguments =>
    if callee.name? = some helpers.push then pushActions helpers place arguments
    else if callee.name? = some helpers.renderList then listActions helpers place arguments
    else if callee.name? = some helpers.renderComponent then
      componentActions helpers place arguments
    else actions helpers callee ++ itemActions helpers arguments
  | .conditional place test yes no =>
    if renders helpers yes || renders helpers no then
      [.within (.conditional test.text false) place.start (actions helpers yes),
        .within .otherwise no.start (actions helpers no)]
    else actions helpers test ++ actions helpers yes ++ actions helpers no
  | .function _ _ body => bodyActions helpers body
  | .paren _ inner => actions helpers inner
  | .construct _ arguments => itemActions helpers arguments
  | .sequence _ parts => allActions helpers parts
  | .array _ items => itemActions helpers items
  | .assign _ value => actions helpers value
  | .binary _ left right => actions helpers left ++ actions helpers right
  | .unary _ operand => actions helpers operand
  | .member _ object => actions helpers object
  | .chain _ (.call _ callee arguments) =>
    actions helpers callee ++ itemActions helpers arguments
  | .object _ members => memberActions helpers members
  | .template _ _ holes => allActions helpers holes
  | .tagged _ holes => allActions helpers holes
  | _ => []

/-- The actions of expressions in order. -/
def allActions (helpers : HelperNames) : List Expr → List Action
  | [] => []
  | expr :: exprs => actions helpers expr ++ allActions helpers exprs

/-- The actions of arguments or items in order. -/
def itemActions (helpers : HelperNames) : List Item → List Action
  | [] => []
  | .expr value :: items => actions helpers value ++ itemActions helpers items
  | .spread _ value :: items => actions helpers value ++ itemActions helpers items
  | .hole :: items => itemActions helpers items

/-- The actions of the values of an object in order. -/
def memberActions (helpers : HelperNames) : List Member → List Action
  | [] => []
  | .property _ _ _ value :: members => actions helpers value ++ memberActions helpers members
  | .spread _ value :: members => actions helpers value ++ memberActions helpers members

/-- The actions of the body of a function. -/
def bodyActions (helpers : HelperNames) : Body → List Action
  | .expression value => actions helpers value
  | .block statements => statementsActions helpers statements

/-- The actions of a statement. -/
def statementActions (helpers : HelperNames) : Statement → List Action
  | .expression value => actions helpers value
  | .branch start test yes no =>
    if test.name? = some helpers.push then statementActions helpers yes
    else
      .within (.conditional test.text false) start (statementActions helpers yes) ::
        alternativeActions helpers no
  | .block statements => statementsActions helpers statements
  | .returning value => actions helpers value
  | .throwing value => actions helpers value
  | .variables declarators => declaratorActions helpers declarators
  | .around body => statementActions helpers body
  | .function .. => []
  | .inert => []
  | .exported place _ => [.reject (.statement (firstLine place.text)) place.start]
  | .exportedDefault place _ => [.reject (.statement (firstLine place.text)) place.start]
  | .other place => [.reject (.statement (firstLine place.text)) place.start]

/-- The actions of what follows the first branch of an `if`. -/
def alternativeActions (helpers : HelperNames) : Alternative → List Action
  | .missing => []
  | .otherwise _ (.branch start test yes no) =>
    .within (.conditional test.text true) start (statementActions helpers yes) ::
      alternativeActions helpers no
  | .otherwise start statement =>
    [.within .otherwise start (statementActions helpers statement)]

/-- The actions of statements in order. -/
def statementsActions (helpers : HelperNames) : List Statement → List Action
  | [] => []
  | statement :: statements =>
    statementActions helpers statement ++ statementsActions helpers statements

/-- The actions of the initial values of declared variables. -/
def declaratorActions (helpers : HelperNames) : List Declarator → List Action
  | [] => []
  | .bare _ :: declarators => declaratorActions helpers declarators
  | .initialized _ value :: declarators =>
    actions helpers value ++ declaratorActions helpers declarators

/-- The actions of a call of the push helper. -/
def pushActions (helpers : HelperNames) (place : Extent) : List Item → List Action
  | .spread spread _ :: _ => rejectSpread spread
  | [.expr value] => pushedActions helpers value
  | arguments => [.reject (.pushArity helpers.push arguments.length) place.start]

/-- The actions of a pushed value: markup for a literal, a component, a hole for any other call.
Nothing can be told from another value. -/
def pushedActions (helpers : HelperNames) : Expr → List Action
  | .paren _ inner => pushedActions helpers inner
  | .template place texts holes =>
    [.feed (Markup.ofSegments (interleave texts holes)) place.start]
  | .string place value => [.feed (Markup.empty.pushText value) place.start]
  | .call place callee arguments =>
    if callee.name? = some helpers.renderComponent then componentActions helpers place arguments
    else [.feed (Markup.empty.pushHole place.text) place.start]
  | value => [.place .invalid value.start]

/-- The actions of a call of the list helper. -/
def listActions (helpers : HelperNames) (place : Extent) : List Item → List Action
  | .spread spread _ :: _ => rejectSpread spread
  | _ :: .spread spread _ :: _ => rejectSpread spread
  | .expr collection :: .expr function :: _ =>
    match callback? helpers function with
    | some function =>
      [.within (.iteration function.parameters.binding collection.text) place.start
        function.inside]
    | none => [.reject (.withoutCallback helpers.renderList) place.start]
  | _ => [.reject (.withoutCallback helpers.renderList) place.start]

/-- The function that an expression is, parentheses aside. -/
def callback? (helpers : HelperNames) : Expr → Option Callback
  | .function place parameters body => some ⟨place, parameters, bodyActions helpers body⟩
  | .paren _ inner => callback? helpers inner
  | _ => none

/-- The function that the first argument is. -/
def firstCallback? (helpers : HelperNames) : List Item → Option Callback
  | .expr value :: _ => callback? helpers value
  | _ => none

/-- The function of a slot, which the context helper may wrap. -/
def slotFunction? (helpers : HelperNames) : Expr → Option Callback
  | .function place parameters body => some ⟨place, parameters, bodyActions helpers body⟩
  | .paren _ inner => slotFunction? helpers inner
  | .call _ callee arguments =>
    if callee.name? = some helpers.withContext then firstCallback? helpers arguments else none
  | _ => none

/-- The function of the first property with the given label. -/
def labelledFunction? (helpers : HelperNames) (label : String) : List Member → Option Callback
  | [] => none
  | .property _ _ (some found) value :: members =>
    if found = label then slotFunction? helpers value else labelledFunction? helpers label members
  | _ :: members => labelledFunction? helpers label members

/-- The actions of a call of the component helper. -/
def componentActions (helpers : HelperNames) (place : Extent) : List Item → List Action
  | .spread spread _ :: _ => rejectSpread spread
  | .expr _ :: .spread spread _ :: _ => rejectSpread spread
  | .expr reference :: .expr props :: .spread spread _ :: _ =>
    [.within (.component reference.text props.text) place.start (rejectSpread spread)]
  | .expr reference :: .expr props :: .expr slots :: _ =>
    [.within (.component reference.text props.text) place.start
      (slotsActions helpers place.start slots)]
  | .expr reference :: .expr props :: _ =>
    [.within (.component reference.text props.text) place.start []]
  | .expr reference :: _ => [.within (.component reference.text "null") place.start []]
  | _ => [.reject (.withoutComponent helpers.renderComponent) place.start]

/-- The actions of the slots given to a component whose call begins at `offset`. -/
def slotsActions (helpers : HelperNames) (offset : Nat) : Expr → List Action
  | .paren _ inner => slotsActions helpers offset inner
  | .object _ members => slotMembers helpers members
  | .function place parameters body =>
    [slotAction "default" ⟨place, parameters, bodyActions helpers body⟩ none offset]
  | .call place callee arguments =>
    if callee.name? = some helpers.createSlots then createdSlots helpers arguments
    else if callee.name? = some helpers.withContext then
      match firstCallback? helpers arguments with
      | some function => [slotAction "default" function none offset]
      | none => [.reject (.slotsGiven place.text) place.start]
    else [.reject (.slotsGiven place.text) place.start]
  | slots => if slots.isNullish then [] else [.reject (.slotsGiven slots.text) slots.start]

/-- The slots of an object literal, one for each member but the flag named `_`. -/
def slotMembers (helpers : HelperNames) : List Member → List Action
  | [] => []
  | .spread place _ :: _ => [.reject .spreadInSlots place.start]
  | .property place key label value :: members =>
    if label = some "_" then slotMembers helpers members
    else
      let name := label.getD key.text
      match slotFunction? helpers value with
      | some function => slotAction name function none place.start :: slotMembers helpers members
      | none => [.reject (.notFunction name) place.start]

/-- The slots of a call of the helper that joins slots: an object of slots that are always there,
then an array of slots that may be. -/
def createdSlots (helpers : HelperNames) : List Item → List Action
  | .spread spread _ :: _ => rejectSpread spread
  | .expr always :: .spread spread _ :: _ => staticSlots helpers always ++ rejectSpread spread
  | .expr always :: .expr maybe :: _ => staticSlots helpers always ++ slotArray helpers maybe
  | .expr always :: _ => staticSlots helpers always
  | _ => []

/-- The slots that are always there. -/
def staticSlots (helpers : HelperNames) : Expr → List Action
  | .paren _ inner => staticSlots helpers inner
  | .object _ members => slotMembers helpers members
  | slots => if slots.isNullish then [] else [.reject (.staticSlotsGiven slots.text) slots.start]

/-- The slots that may be there. -/
def slotArray (helpers : HelperNames) : Expr → List Action
  | .paren _ inner => slotArray helpers inner
  | .array _ items => slotItems helpers items
  | slots => [.reject (.dynamicSlotsGiven slots.text) slots.start]

/-- The slots of an array. -/
def slotItems (helpers : HelperNames) : List Item → List Action
  | [] => []
  | .hole :: items => slotItems helpers items
  | .spread place _ :: _ => [.reject .spreadInDynamicSlots place.start]
  | .expr value :: items => dynamicSlot helpers none value ++ slotItems helpers items

/-- A slot that may be there: a descriptor with a name and a function, either branch of a
condition, or the descriptor that a list helper makes for each item. -/
def dynamicSlot (helpers : HelperNames) (loop : Option Binding) : Expr → List Action
  | .paren _ inner => dynamicSlot helpers loop inner
  | .object place members =>
    match labelled? "name" members with
    | none => [.reject .unnamedSlot place.start]
    | some name =>
      match labelledFunction? helpers "fn" members with
      | some function => [slotAction (slotName name) function loop place.start]
      | none => [.reject (.slotWithoutFunction (slotName name)) place.start]
  | .conditional _ _ yes no => dynamicSlot helpers loop yes ++ dynamicSlot helpers loop no
  | .call place callee arguments =>
    if callee.name? = some helpers.renderListSlots then listedSlots helpers place arguments
    else [.reject (.dynamicSlot place.text) place.start]
  | slot => if slot.isNullish then [] else [.reject (.dynamicSlot slot.text) slot.start]

/-- The slots of a call of the helper that makes a slot for each item. -/
def listedSlots (helpers : HelperNames) (place : Extent) : List Item → List Action
  | .spread spread _ :: _ => rejectSpread spread
  | _ :: .spread spread _ :: _ => rejectSpread spread
  | .expr collection :: .expr function :: _ =>
    returnedSlots helpers place collection.text function
  | _ => [.reject (.withoutCallback helpers.renderListSlots) place.start]

/-- The slots that a callback returns for each item of a collection. -/
def returnedSlots (helpers : HelperNames) (place : Extent) (collection : String) :
    Expr → List Action
  | .paren _ inner => returnedSlots helpers place collection inner
  | .function _ parameters (.expression value) =>
    dynamicSlot helpers (some ⟨parameters.binding, collection⟩) value
  | .function function parameters (.block statements) =>
    firstReturned helpers function.start ⟨parameters.binding, collection⟩ statements
  | _ => [.reject (.withoutCallback helpers.renderListSlots) place.start]

/-- The slots of the first value that is returned. -/
def firstReturned (helpers : HelperNames) (start : Nat) (loop : Binding) :
    List Statement → List Action
  | [] => [.reject .nothingReturned start]
  | .returning value :: _ => dynamicSlot helpers (some loop) value
  | _ :: statements => firstReturned helpers start loop statements

end

end IslandSlots.Script
