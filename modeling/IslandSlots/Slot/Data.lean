import IslandSlots.Loop.Binding
import IslandSlots.Template.Basic

/-!
# Slot data

The expression that gives the properties passed to a slot: the text of an array with one object
for each rendering of the slot. Plain values are template literals, bound ones their expressions,
and a name that is no identifier is a quoted key.
-/

namespace IslandSlots.SlotData

/-- The function that makes an array of what a loop runs over. -/
def loopHelper : String := "__vforToArray"

/-- Whether a character may begin an identifier. -/
def beginsIdentifier (c : Char) : Bool :=
  c.isAlpha || c == '_' || c == '$'

/-- Whether a text is an identifier in ASCII. -/
def isIdentifier (text : List Char) : Bool :=
  text.head?.any beginsIdentifier && text.all fun c => beginsIdentifier c || c.isDigit

/-- One character of a quoted key. -/
def keyChar (c : Char) : List Char :=
  if c = '\\' then ['\\', '\\'] else if c = '\'' then ['\\', '\''] else [c]

/-- A name as the key of an object. -/
def key (name : List Char) : List Char :=
  if isIdentifier name then name else '\'' :: name.flatMap keyChar ++ ['\'']

/-- A text inside a template literal: nothing in it ends the literal or begins an expression. -/
def literalText : List Char → List Char
  | '\\' :: rest => '\\' :: '\\' :: literalText rest
  | '\x60' :: rest => '\\' :: '\x60' :: literalText rest
  | '$' :: '\x7b' :: rest => '\\' :: '$' :: '\x7b' :: literalText rest
  | c :: rest => c :: literalText rest
  | [] => []

/-- A text as a template literal. -/
def literal (text : String) : String :=
  String.ofList ('\x60' :: literalText text.toList ++ ['\x60'])

/-- The value of a property. A bound name without an expression is bound to itself. -/
def value (attr : TemplateAttribute) : String :=
  let written := attr.value.getD ""
  match attr.kind with
  | .bind => if written.isEmpty then attr.name else written
  | _ => literal written

/-- The property that an attribute passes. -/
def property (attr : TemplateAttribute) : String :=
  String.ofList (key attr.name.toList) ++ ": " ++ value attr

/-- The object with the given properties, in which the properties of `spread` come first. -/
def object (properties : List TemplateAttribute) (spread : Option String) : String :=
  let entries := (spread.map fun whole => "...(" ++ whole ++ ")").toList ++ properties.map property
  if entries.isEmpty then "\x7b\x7d" else "\x7b " ++ String.intercalate ", " entries ++ " \x7d"

/-- The expression for the data of a slot, which a loop may render many times. -/
def expression (properties : List TemplateAttribute) (spread : Option String)
    (loop : Option Binding) : String :=
  match loop with
  | none => "JSON.stringify([" ++ object properties spread ++ "])"
  | some loop =>
    "JSON.stringify(" ++ loopHelper ++ "(" ++ loop.collection ++ ").map(" ++ loop.item ++
      " => (" ++ object properties spread ++ ")))"

end IslandSlots.SlotData
