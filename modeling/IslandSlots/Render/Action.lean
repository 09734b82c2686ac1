import IslandSlots.Markup.Basic
import IslandSlots.Render.Error

/-!
# Actions of a render function

What a render function does to the tree of its output, in the order in which it does it, with the
source it was read from left behind. A construct that is not understood is an action too: it
stops the run at its place.
-/

namespace IslandSlots

/-- A step in building a render tree. Each knows the byte of the source that it comes from. -/
inductive Action where
  /-- Feeds a chunk of markup. -/
  | feed (chunk : Markup) (offset : Nat)
  /-- Places a node that holds nothing. -/
  | place (kind : Kind) (offset : Nat)
  /-- Opens a node, does what is inside, and closes it. -/
  | within (kind : Kind) (offset : Nat) (inside : List Action)
  /-- Stops at a construct that is not understood. -/
  | reject (construct : Construct) (offset : Nat)
  deriving Repr

end IslandSlots
