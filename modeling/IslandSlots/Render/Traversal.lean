import IslandSlots.Render.Tree

/-!
# Walks over a render tree

The nodes below a node in the order of the document, each with its depth, visited with a stack of
nodes still to come, and the outline that writes one node on a line.
-/

namespace IslandSlots.Tree

/-- Visits the pending nodes and all below them, each node before its children and with its
depth. At most `count` nodes are visited. -/
def visit (tree : Tree) : Nat → List (Nat × Nat) → List (Nat × Nat)
  | 0, _ => []
  | _, [] => []
  | count + 1, (node, depth) :: pending =>
    (node, depth) ::
      tree.visit count ((tree.children node).map (fun child => (child, depth + 1)) ++ pending)

/-- The nodes below a node, each before its own children. -/
def descendants (tree : Tree) (node : Nat) : List Nat :=
  (tree.visit tree.size ((tree.children node).map fun child => (child, 0))).map Prod.fst

/-- A node on a line, two spaces deeper than its parent. -/
def outlineLine (tree : Tree) (node : Nat) (depth : Nat) : String :=
  String.ofList (List.replicate (2 * depth) ' ') ++ (tree.kind node).label ++ "\n"

/-- The tree with one node on a line. -/
def outline (tree : Tree) : String :=
  String.join ((tree.visit tree.size [(root, 0)]).map fun (node, depth) =>
    tree.outlineLine node depth)

end IslandSlots.Tree
