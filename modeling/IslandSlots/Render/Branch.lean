import IslandSlots.Json.Value
import IslandSlots.Render.Tree

/-!
# Branches

A node together with everything below it, as an ordered tree of kinds, and its JSON form: the
word for the kind, the fields of the kind, and the children when there are any.
-/

namespace IslandSlots

/-- A node of some kind with the branches below it. -/
inductive Branch where
  /-- The only way to make a branch. -/
  | node (kind : Kind) (children : List Branch)
  deriving Repr

/-- The branch at a node of a tree. Children come after their parent in the store; anything else
named as a child is left out. -/
def Tree.branch (tree : Tree) (node : Nat) : Branch :=
  .node (tree.kind node) <| (tree.children node).filterMap fun child =>
    if _below : node < child ∧ child < tree.size then some (tree.branch child) else none
termination_by tree.size - node
decreasing_by omega

namespace Kind

/-- The fields of a kind in JSON. -/
def fields : Kind → List (String × Json)
  | .root => []
  | .element tag attrs => [("tag", .string tag), ("attrs", .string attrs)]
  | .component reference props => [("reference", .string reference), ("props", .string props)]
  | .slot name scope loop =>
    [("name", Json.string name)] ++ (scope.map fun scope => ("scope", Json.string scope)).toList ++
      (loop.map fun binding =>
        ("iteration", Json.object
          [("item", .string binding.item), ("collection", .string binding.collection)])).toList
  | .conditional test chained => [("test", .string test), ("chained", .bool chained)]
  | .otherwise => []
  | .iteration left right => [("left", .string left), ("right", .string right)]
  | .text content => [("content", .string content)]
  | .comment marker => [("marker", .string marker.name)]
  | .invalid => []

/-- The members of the JSON form that a kind gives. -/
def members (kind : Kind) : List (String × Json) :=
  ("type", .string kind.name) :: kind.fields

end Kind

namespace Branch

mutual

/-- The JSON form of a branch. -/
def toJson : Branch → Json
  | .node kind [] => .object kind.members
  | .node kind (child :: children) =>
    .object (kind.members ++ [("children", .array (toJson child :: allToJson children))])

/-- The JSON forms of branches. -/
def allToJson : List Branch → List Json
  | [] => []
  | child :: children => toJson child :: allToJson children

end

end Branch

/-- The JSON form of a whole tree. -/
def Tree.toJson (tree : Tree) : Json :=
  (tree.branch root).toJson

end IslandSlots
