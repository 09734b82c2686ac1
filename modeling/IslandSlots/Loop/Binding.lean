import IslandSlots.Text.Blank
import IslandSlots.Text.Search

/-!
# Loops

What a loop binds and what it runs over, and the one text that says both: the two sides with the
word `in` or `of` between them.
-/

namespace IslandSlots

/-- The source of a loop: what it binds and what it runs over. -/
structure Binding where
  /-- The variables bound in each turn. -/
  item : String
  /-- The expression that is looped over. -/
  collection : String
  deriving DecidableEq, Repr

namespace Binding

/-- The loop that a text says. The word `in` goes before the word `of`, and of several the first
one counts; neither side may be blank. -/
def parse? (text : String) : Option Binding := do
  let (item, collection) ←
    (Text.splitString? " in " text).or (Text.splitString? " of " text)
  let item := Text.trimmed item
  let collection := Text.trimmed collection
  if item.isEmpty || collection.isEmpty then none else some ⟨item, collection⟩

/-- The text that says a loop. -/
def render (loop : Binding) : String :=
  loop.item ++ " in " ++ loop.collection

end Binding

end IslandSlots
