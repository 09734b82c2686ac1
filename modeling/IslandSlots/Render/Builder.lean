import IslandSlots.Render.Action
import IslandSlots.Render.Tree

/-!
# Building a render tree

A tree in the making and the nodes of it that are still open, innermost first. Tags open and close
elements; a node opened by control flow is closed where its part of the source ends. Elements
that may leave out their end tag are closed when something around them is.
-/

namespace IslandSlots

/-- A tree in the making. -/
structure Builder where
  /-- What is made so far. -/
  tree : Tree
  /-- The nodes under the root that are still open, innermost first. -/
  opened : List Nat
  deriving DecidableEq, Repr

namespace Builder

/-- Nothing made, and nothing open but the root. -/
def start : Builder := ⟨Tree.empty, []⟩

/-- The innermost open node. -/
def current (builder : Builder) : Nat :=
  builder.opened.headD Tree.root

/-- What the innermost open node stands for. -/
def currentKind (builder : Builder) : Kind :=
  builder.tree.kind builder.current

/-- Places a node under the innermost open one. -/
def place (builder : Builder) (kind : Kind) (offset : Nat) :
    Except RenderError (Nat × Builder) :=
  match builder.tree.append builder.current kind with
  | .ok (node, tree) => .ok (node, ⟨tree, builder.opened⟩)
  | .error refusal => .error (.malformed (.misplaced refusal) offset)

/-- Places a node and leaves it open. -/
def enter (builder : Builder) (kind : Kind) (offset : Nat) :
    Except RenderError (Nat × Builder) := do
  let (node, builder) ← builder.place kind offset
  return (node, ⟨builder.tree, node :: builder.opened⟩)

/-- The open nodes that are left when elements without a need for an end tag are ended, from the
innermost one outwards. -/
def dropImplied (tree : Tree) : List Nat → List Nat
  | [] => []
  | node :: outer =>
    match tree.kind node with
    | .element tag _ => if Tag.hasOptionalEnd tag then dropImplied tree outer else node :: outer
    | _ => node :: outer

/-- Ends the innermost elements that need no end tag. -/
def endImplied (builder : Builder) : Builder :=
  ⟨builder.tree, dropImplied builder.tree builder.opened⟩

/-- Closes a node, which has to be the innermost open one once elements that need no end tag are
ended. -/
def leave (builder : Builder) (node offset : Nat) : Except RenderError Builder :=
  let builder := if builder.current = node then builder else builder.endImplied
  if builder.current = node then .ok ⟨builder.tree, builder.opened.tail⟩
  else .error (.malformed (.neverClosed builder.currentKind) offset)

/-- Whether the innermost open node is an element with the given tag. -/
def isInside (builder : Builder) (tag : String) : Bool :=
  match builder.currentKind with
  | .element found _ => found == tag
  | _ => false

/-- Closes the innermost element of the given tag at its end tag. -/
def closeTag (builder : Builder) (tag : String) (offset : Nat) : Except RenderError Builder :=
  let builder := if builder.isInside tag then builder else builder.endImplied
  if builder.isInside tag then .ok ⟨builder.tree, builder.opened.tail⟩
  else .error (.malformed (.unexpectedEnd tag builder.currentKind) offset)

/-- Puts text into the innermost open node. -/
def text (builder : Builder) (content : String) (offset : Nat) : Except RenderError Builder :=
  match builder.tree.appendText builder.current content with
  | .ok (_, tree) => .ok ⟨tree, builder.opened⟩
  | .error refusal => .error (.malformed (.misplaced refusal) offset)

/-- Does what a token asks for. Comments that mark no fragment leave nothing behind. -/
def token (builder : Builder) (offset : Nat) : Token → Except RenderError Builder
  | .opening tag attrs selfClosing =>
    if selfClosing then Prod.snd <$> builder.place (.element tag attrs) offset
    else Prod.snd <$> builder.enter (.element tag attrs) offset
  | .closing tag => builder.closeTag tag offset
  | .text content => builder.text content offset
  | .fragmentStart => Prod.snd <$> builder.place (.comment .start) offset
  | .fragmentEnd => Prod.snd <$> builder.place (.comment .stop) offset
  | .comment _ => .ok builder

/-- Does what tokens ask for, in order. -/
def tokens (builder : Builder) (offset : Nat) : List Token → Except RenderError Builder
  | [] => .ok builder
  | token :: rest => do
    let builder ← builder.token offset token
    builder.tokens offset rest

/-- Feeds a chunk of markup. -/
def feed (builder : Builder) (chunk : Markup) (offset : Nat) : Except RenderError Builder :=
  match chunk.tokens with
  | .ok tokens => builder.tokens offset tokens
  | .error error => .error (.malformed (.markup chunk error) offset)

mutual

/-- Does an action. -/
def act (builder : Builder) : Action → Except RenderError Builder
  | .feed chunk offset => builder.feed chunk offset
  | .place kind offset => Prod.snd <$> builder.place kind offset
  | .within kind offset inside => do
    let (node, builder) ← builder.enter kind offset
    let builder ← builder.actAll inside
    builder.leave node offset
  | .reject construct offset => .error (.unsupported construct offset)

/-- Does actions in order. -/
def actAll (builder : Builder) : List Action → Except RenderError Builder
  | [] => .ok builder
  | action :: actions => do
    let builder ← builder.act action
    builder.actAll actions

end

/-- The tree, when nothing is open that needs an end tag. The source has `length` bytes. -/
def finish (builder : Builder) (length : Nat) : Except RenderError Tree :=
  let builder := builder.endImplied
  match builder.opened with
  | [] => .ok builder.tree
  | node :: _ => .error (.malformed (.neverClosed (builder.tree.kind node)) length)

end Builder

end IslandSlots
