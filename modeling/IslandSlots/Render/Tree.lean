import IslandSlots.Render.Kind

/-!
# Render trees

A tree as a store of nodes. A node is known by its place in the store, which is how many nodes were
made before it. The root is the first, and a node is placed under one that is in the store already,
so every child comes after its parent.
-/

namespace IslandSlots

/-- A node in the store. -/
structure Entry where
  /-- What the node stands for. -/
  kind : Kind
  /-- The node that it is placed under. -/
  parent : Option Nat
  /-- The nodes placed under it, in order. -/
  children : Array Nat
  deriving DecidableEq, Repr

/-- A render tree. -/
structure Tree where
  /-- The nodes by the order in which they were made. -/
  entries : Array Entry
  deriving DecidableEq, Repr

/-- A child was offered to a node that cannot hold it. -/
structure InvalidChild where
  /-- The kind of the node that was to hold the child. -/
  parent : Kind
  /-- The kind of the child. -/
  child : Kind
  deriving DecidableEq, Repr

/-- The refusal in words. -/
def InvalidChild.message (refusal : InvalidChild) : String :=
  "a " ++ refusal.child.name ++ " node cannot be placed under a " ++ refusal.parent.name ++ " node"

namespace Tree

/-- The tree with nothing in it but the root. -/
def empty : Tree := ⟨#[⟨.root, none, #[]⟩]⟩

/-- The first node of every tree. -/
def root : Nat := 0

/-- How many nodes a tree has, the root included. -/
def size (tree : Tree) : Nat :=
  tree.entries.size

/-- What a node stands for; a place without a node reads as invalid. -/
def kind (tree : Tree) (node : Nat) : Kind :=
  (tree.entries[node]?.map Entry.kind).getD .invalid

/-- The node that a node is placed under. -/
def parent (tree : Tree) (node : Nat) : Option Nat :=
  tree.entries[node]?.bind Entry.parent

/-- The nodes placed under a node. -/
def children (tree : Tree) (node : Nat) : List Nat :=
  (tree.entries[node]?.map fun entry => entry.children.toList).getD []

/-- The node last placed under a node. -/
def lastChild? (tree : Tree) (node : Nat) : Option Nat :=
  tree.entries[node]?.bind fun entry => entry.children.back?

/-- Whether nothing is placed under the root. -/
def isEmpty (tree : Tree) : Bool :=
  (tree.children root).isEmpty

/-- Makes a node as the last child of `parent`. -/
def append (tree : Tree) (parent : Nat) (kind : Kind) : Except InvalidChild (Nat × Tree) :=
  if (tree.kind parent).accepts kind then
    let node := tree.size
    let linked := tree.entries.modify parent fun entry =>
      { entry with children := entry.children.push node }
    .ok (node, ⟨linked.push ⟨kind, some parent, #[]⟩⟩)
  else .error ⟨tree.kind parent, kind⟩

/-- Puts text at the end of `parent`: into its last child if that is a text, else in a new one. -/
def appendText (tree : Tree) (parent : Nat) (text : String) :
    Except InvalidChild (Nat × Tree) :=
  match tree.lastChild? parent with
  | some last =>
    match tree.kind last with
    | .text content =>
      .ok (last, ⟨tree.entries.modify last fun entry =>
        { entry with kind := .text (content ++ text) }⟩)
    | _ => tree.append parent (.text text)
  | none => tree.append parent (.text text)

/-- The content of the texts placed under a node, joined. -/
def text (tree : Tree) (node : Nat) : String :=
  String.join <| (tree.children node).filterMap fun child =>
    match tree.kind child with
    | .text content => some content
    | _ => none

end Tree

end IslandSlots
