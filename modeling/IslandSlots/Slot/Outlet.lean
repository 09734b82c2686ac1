import IslandSlots.Slot.Data
import IslandSlots.Text.Edits
import IslandSlots.Text.Utf8

/-!
# Slot outlets

A slot outlet becomes an element that carries the name and the data of the slot. What the outlet
holds in case nothing is passed to the slot stays inside, between two markers; where the outlet
loops, that content loops as well: a lone element by itself and anything else in a wrapper.
-/

namespace IslandSlots

/-- A slot outlet of a template. -/
structure Outlet where
  /-- Its opening tag. -/
  opening : OpeningTag
  /-- What it holds. -/
  children : List TemplateNode
  /-- Where its closing tag stands. -/
  closing : Option Span

/-- The name of a slot. -/
inductive SlotName where
  /-- A name that is known. -/
  | fixed (name : String)
  /-- The value of an expression. -/
  | computed (expression : String)
  deriving DecidableEq, Repr

/-- The name of an outlet's element. -/
def slotTag : String := "slot"

mutual

/-- The outlets of a node, each before those it holds. -/
def TemplateNode.outlets : TemplateNode → List Outlet
  | .element opening children closing =>
    (if opening.tag = slotTag then [⟨opening, children, closing⟩] else []) ++ allOutlets children
  | _ => []

/-- The outlets of nodes in order, each before those it holds. -/
def TemplateNode.allOutlets : List TemplateNode → List Outlet
  | [] => []
  | node :: nodes => outlets node ++ allOutlets nodes

end

/-- A text inside double quotes in markup. -/
def escapeQuotes (text : String) : String :=
  String.ofList (text.toList.flatMap fun c => if c = '"' then "&quot;".toList else [c])

/-- An attribute that carries the name of a slot. -/
def SlotName.attribute (attr : String) : SlotName → String
  | .fixed name => attr ++ "=\"" ++ name ++ "\""
  | .computed expression => ":" ++ attr ++ "=\"" ++ escapeQuotes expression ++ "\""

namespace Outlet

/-- The attribute for the name of a slot. -/
def nameAttribute : String := "nuxt-ssr-slot-name"

/-- The attribute for the data of a slot. -/
def dataAttribute : String := "nuxt-ssr-slot-data"

/-- The attribute of the marker before the content of an outlet. -/
def startAttribute : String := "nuxt-slot-fallback-start"

/-- The attribute of the marker after the content of an outlet. -/
def endAttribute : String := "nuxt-slot-fallback-end"

/-- The attribute by which an element makes no box of its own. -/
def displayContents : String := "style=\"display: contents;\""

/-- The name of the slot: an expression if the name is bound, else the written name. -/
def name (outlet : Outlet) : SlotName :=
  match outlet.opening.value? .bind "name" with
  | some expression => .computed expression
  | none => .fixed ((outlet.opening.value? .plain "name").getD "default")

/-- The loop of an outlet, if it has one. -/
def loop (outlet : Outlet) : Except TemplateError (Option Binding) :=
  match outlet.opening.value? .directive "for" with
  | none => .ok none
  | some expression =>
    match Binding.parse? expression with
    | some loop => .ok (some loop)
    | none => .error ⟨.invalidLoop expression, outlet.opening.span.start⟩

/-- The attributes that are passed to the slot as properties. -/
def properties (outlet : Outlet) : List TemplateAttribute :=
  outlet.opening.attributes.filter fun attr =>
    (attr.kind == .plain || attr.kind == .bind) && attr.name != "name"

/-- The expression for the data of the slot. -/
def data (outlet : Outlet) (loop : Option Binding) : String :=
  SlotData.expression outlet.properties (outlet.opening.value? .directive "bind") loop

/-- The opening tag of the element in place of the outlet, without its end. -/
def wrapper (outlet : Outlet) (loop : Option Binding) : String :=
  "<div " ++ displayContents ++ " " ++ outlet.name.attribute nameAttribute ++ " :" ++
    dataAttribute ++ "=\"" ++ escapeQuotes (outlet.data loop) ++ "\""

/-- A marker of the slot. -/
def marker (outlet : Outlet) (attr : String) : String :=
  "<div " ++ outlet.name.attribute attr ++ "/>"

/-- The attribute by which an element loops. -/
def loopAttribute (loop : Binding) : String :=
  "v-for=\"" ++ loop.render ++ "\""

/-- The opening tag of the element around content of several nodes. -/
def contentWrapper : Option Binding → String
  | some loop => "<div " ++ loopAttribute loop ++ " " ++ displayContents ++ ">"
  | none => "<div " ++ displayContents ++ ">"

/-- Makes a lone element loop. An outlet sees to its own loop. -/
def loneLoop : Option Binding → TemplateNode → List (Edit UInt8)
  | some loop, .element child _ _ =>
    if child.tag = slotTag then []
    else [.insertRight (child.span.start + 1 + Text.byteLength child.tag.toList)
      (Text.bytes (" " ++ loopAttribute loop))]
  | _, _ => []

/-- What is done to the content between two places. -/
def contentEdits (outlet : Outlet) (loop : Option Binding) (start stop : Nat) :
    List (Edit UInt8) :=
  match TemplateNode.significant outlet.children with
  | [] => []
  | [only] =>
    loneLoop loop only ++
      [.insertRight start (Text.bytes (outlet.marker startAttribute)),
        .insertLeft stop (Text.bytes (outlet.marker endAttribute))]
  | _ =>
    [.insertRight start (Text.bytes (outlet.marker startAttribute ++ contentWrapper loop)),
      .insertLeft stop (Text.bytes ("</div>" ++ outlet.marker endAttribute))]

/-- What is done to an outlet. -/
def edits (outlet : Outlet) : Except TemplateError (List (Edit UInt8)) := do
  let loop ← outlet.loop
  let span := outlet.opening.span
  if outlet.opening.selfClosing then
    return [.replace span.start span.stop (Text.bytes (outlet.wrapper loop ++ "/>"))]
  match outlet.closing with
  | none => throw ⟨.unclosed slotTag, span.start⟩
  | some closing =>
    return [.replace span.start span.stop (Text.bytes (outlet.wrapper loop ++ ">")),
      .replace closing.start closing.stop (Text.bytes "</div>")] ++
      outlet.contentEdits loop span.stop closing.start

end Outlet

end IslandSlots
