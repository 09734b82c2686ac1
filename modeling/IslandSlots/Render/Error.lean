import IslandSlots.Markup.Token
import IslandSlots.Render.Tree

/-!
# Failures of reconstruction

Why a module has no render tree: its output is not well formed, it uses a helper in a way that
is not understood, or it is not a script at all. Each failure has the byte of the source where it
shows.
-/

namespace IslandSlots

/-- How render output can fail to describe a tree. -/
inductive Malformation where
  /-- A chunk of markup has no tokens. -/
  | markup (chunk : Markup) (error : MarkupError)
  /-- An end tag does not belong to the innermost open node. -/
  | unexpectedEnd (tag : String) (inside : Kind)
  /-- A node is still open where it has to be closed. -/
  | neverClosed (kind : Kind)
  /-- A node cannot be placed where it is produced. -/
  | misplaced (refusal : InvalidChild)
  deriving Repr

/-- A construct that is not understood. -/
inductive Construct where
  /-- A statement of another sort, given by its first line. -/
  | statement (line : String)
  /-- A spread among the arguments that are looked at. -/
  | spreadArgument (text : String)
  /-- The push helper is not called with one argument. -/
  | pushArity (helper : String) (count : Nat)
  /-- A list helper has no callback. -/
  | withoutCallback (helper : String)
  /-- The component helper has no component. -/
  | withoutComponent (helper : String)
  /-- The slots of a component are neither an object nor a function. -/
  | slotsGiven (text : String)
  /-- An object of slots spreads another. -/
  | spreadInSlots
  /-- The value of a slot is no function. -/
  | notFunction (name : String)
  /-- The slots that are always there are no object. -/
  | staticSlotsGiven (text : String)
  /-- The slots that may be there are no array. -/
  | dynamicSlotsGiven (text : String)
  /-- The array of slots that may be there spreads another. -/
  | spreadInDynamicSlots
  /-- A slot that may be there has no name. -/
  | unnamedSlot
  /-- A slot that may be there has no function. -/
  | slotWithoutFunction (name : String)
  /-- The callback that makes a slot for each item returns none. -/
  | nothingReturned
  /-- A slot that may be there is given in another way. -/
  | dynamicSlot (text : String)
  deriving DecidableEq, Repr

/-- Why a module has no render tree. -/
inductive RenderError where
  /-- The output is not well formed. -/
  | malformed (cause : Malformation) (offset : Nat)
  /-- A construct is not understood. -/
  | unsupported (construct : Construct) (offset : Nat)
  /-- The module is not a script. -/
  | scriptSyntax (offset : Nat)
  deriving Repr

/-- A text between backticks. -/
private def ticked (text : String) : String := "`" ++ text ++ "`"

/-- A malformation in words. -/
def Malformation.message : Malformation → String
  | .markup chunk error => "in " ++ ticked chunk.render ++ ": " ++ error.message
  | .unexpectedEnd tag inside => "unexpected `</" ++ tag ++ ">` inside " ++ inside.label
  | .neverClosed kind => kind.label ++ " is never closed"
  | .misplaced refusal => refusal.message

/-- A construct in words. -/
def Construct.message : Construct → String
  | .statement line => "statement " ++ ticked line
  | .spreadArgument text => "spread argument " ++ ticked text
  | .pushArity helper count => ticked helper ++ " with " ++ toString count ++ " arguments"
  | .withoutCallback helper => ticked helper ++ " without a callback"
  | .withoutComponent helper => ticked helper ++ " without a component"
  | .slotsGiven text => "slots given as " ++ ticked text
  | .spreadInSlots => "spread in a slots object"
  | .notFunction name => "slot " ++ ticked name ++ " is not a function"
  | .staticSlotsGiven text => "static slots given as " ++ ticked text
  | .dynamicSlotsGiven text => "dynamic slots given as " ++ ticked text
  | .spreadInDynamicSlots => "spread in dynamic slots"
  | .unnamedSlot => "dynamic slot without a name"
  | .slotWithoutFunction name => "dynamic slot " ++ ticked name ++ " without a function"
  | .nothingReturned => "slot list callback returns nothing"
  | .dynamicSlot text => "dynamic slot " ++ ticked text

namespace RenderError

/-- The byte of the source where a failure shows. -/
def offset : RenderError → Nat
  | .malformed _ offset => offset
  | .unsupported _ offset => offset
  | .scriptSyntax offset => offset

/-- Whether the module is a script whose output gives no tree. -/
def isMalformed : RenderError → Bool
  | .scriptSyntax _ => false
  | _ => true

/-- A failure in words. -/
def message : RenderError → String
  | .malformed cause offset =>
    "malformed render output at byte " ++ toString offset ++ ": " ++ cause.message
  | .unsupported construct offset =>
    "unsupported construct at byte " ++ toString offset ++ ": " ++ construct.message
  | .scriptSyntax offset => "syntax error at byte " ++ toString offset

end RenderError

end IslandSlots
