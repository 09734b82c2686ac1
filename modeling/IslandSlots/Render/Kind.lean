import IslandSlots.Loop.Binding
import IslandSlots.Text.Quoted

/-!
# Kinds of nodes

What a node of a render tree stands for, which kinds may be placed under which, and the one-line
label of a kind.
-/

namespace IslandSlots

/-- The two comments around a fragment. -/
inductive Marker where
  /-- The comment before a fragment. -/
  | start
  /-- The comment after a fragment. -/
  | stop
  deriving DecidableEq, Repr

/-- What a node of a render tree stands for. -/
inductive Kind where
  /-- The whole output. -/
  | root
  /-- An element of the markup. -/
  | element (tag attrs : String)
  /-- A child component, given by the expressions for it and for its properties. -/
  | component (reference props : String)
  /-- Content passed to a slot of a child component. -/
  | slot (name : String) (scope : Option String) (iteration : Option Binding)
  /-- Output under a condition, which may be an `else if` of the conditional before it. -/
  | conditional (test : String) (chained : Bool)
  /-- Output when the conditionals before it do not hold. -/
  | otherwise
  /-- Output once for each item. -/
  | iteration (left right : String)
  /-- Text between tags. -/
  | text (content : String)
  /-- One end of a fragment. -/
  | comment (marker : Marker)
  /-- Output that cannot be told from the source. -/
  | invalid
  deriving DecidableEq, Repr, Inhabited

namespace Marker

/-- The word for an end of a fragment. -/
def name : Marker → String
  | .start => "start"
  | .stop => "end"

/-- The comment itself. -/
def label : Marker → String
  | .start => "<!--[-->"
  | .stop => "<!--]-->"

end Marker

namespace Kind

/-- The word for a kind. -/
def name : Kind → String
  | .root => "root"
  | .element .. => "element"
  | .component .. => "component"
  | .slot .. => "slot"
  | .conditional .. => "conditional"
  | .otherwise => "else"
  | .iteration .. => "iteration"
  | .text .. => "text"
  | .comment .. => "comment"
  | .invalid => "invalid"

/-- Whether a kind is that of a slot. -/
def isSlot : Kind → Bool
  | .slot .. => true
  | _ => false

/-- Whether a node of one kind may be placed under a node of another. Components hold slots and
nothing else does; texts, comments and invalid nodes hold nothing. -/
def accepts : Kind → Kind → Bool
  | _, .root => false
  | .component .., child => child.isSlot
  | _, .slot .. => false
  | .text .., _ => false
  | .comment .., _ => false
  | .invalid, _ => false
  | _, _ => true

/-- A kind on one line. -/
def label : Kind → String
  | .root => "#root"
  | .element tag attrs => if attrs.isEmpty then "<" ++ tag ++ ">" else "<" ++ tag ++ " " ++ attrs ++ ">"
  | .component reference props => "component " ++ reference ++ " " ++ props
  | .slot name scope loop =>
    "slot " ++ Text.quoted name ++
      (match scope with
        | some scope => " scope " ++ scope
        | none => "") ++
      match loop with
        | some binding => " for " ++ binding.item ++ " in " ++ binding.collection
        | none => ""
  | .conditional test chained => (if chained then "else if (" else "if (") ++ test ++ ")"
  | .otherwise => "else"
  | .iteration left right => "for " ++ left ++ " in " ++ right
  | .text content => Text.quoted content
  | .comment marker => marker.label
  | .invalid => "#invalid"

end Kind

end IslandSlots
