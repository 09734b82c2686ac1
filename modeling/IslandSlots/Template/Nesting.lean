import IslandSlots.Template.Piece

/-!
# Nesting of a template

The forest of elements that the pieces of a template make. A closing tag closes the innermost open
element of its name; elements inside that one which are still open end there too, without a
closing tag of their own. An element that nothing closes is an error.
-/

namespace IslandSlots

/-- An element that is still open. -/
structure OpenElement where
  /-- Its opening tag. -/
  opening : OpeningTag
  /-- What it holds so far. -/
  children : List TemplateNode

/-- A template of which some pieces are read. -/
structure Nesting where
  /-- The open elements, innermost first. -/
  stack : List OpenElement
  /-- The nodes outside of all elements. -/
  roots : List TemplateNode

namespace Nesting

/-- Nothing read yet. -/
def empty : Nesting := ⟨[], []⟩

/-- Puts a node at the end of the innermost open element. -/
def put (nesting : Nesting) (node : TemplateNode) : Nesting :=
  match nesting.stack with
  | [] => { nesting with roots := nesting.roots ++ [node] }
  | inner :: outer =>
    { nesting with stack := { inner with children := inner.children ++ [node] } :: outer }

/-- The innermost element of the given name, closed there, and the elements that stay open around
it. `last` is what the innermost element holds at its end. -/
def closed? (tag : String) (span : Span) :
    List OpenElement → List TemplateNode → Option (TemplateNode × List OpenElement)
  | [], _ => none
  | inner :: outer, last =>
    if inner.opening.tag = tag then
      some (.element inner.opening (inner.children ++ last) (some span), outer)
    else closed? tag span outer [.element inner.opening (inner.children ++ last) none]

/-- Takes in the next piece. -/
def add (nesting : Nesting) : TemplatePiece → Except TemplateError Nesting
  | .opening tag =>
    if tag.selfClosing then .ok (nesting.put (.element tag [] none))
    else .ok { nesting with stack := ⟨tag, []⟩ :: nesting.stack }
  | .closing tag span =>
    match closed? tag span nesting.stack [] with
    | some (node, outer) => .ok ({ nesting with stack := outer }.put node)
    | none => .error ⟨.unmatchedClosingTag tag, span.start⟩
  | .text content => .ok (nesting.put (.text content))
  | .interpolation expression => .ok (nesting.put (.interpolation expression))
  | .comment body => .ok (nesting.put (.comment body))

/-- The nodes outside of all elements that are not blank, once everything is closed. -/
def finish (nesting : Nesting) : Except TemplateError (List TemplateNode) :=
  match nesting.stack with
  | [] => .ok (TemplateNode.significant nesting.roots)
  | inner :: _ => .error ⟨.unclosed inner.opening.tag, inner.opening.span.start⟩

end Nesting

/-- The forest of a template that has `base` bytes of the file before it. The error is the one
that shows first. -/
def TemplateNode.forest (base : Nat) (template : String) :
    Except TemplateError (List TemplateNode) := do
  let (pieces, fault) := TemplatePiece.all base (Text.bytes template)
  let nesting ← pieces.foldlM Nesting.add Nesting.empty
  match fault with
  | some error => throw error
  | none => nesting.finish

end IslandSlots
