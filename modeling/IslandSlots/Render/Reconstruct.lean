import IslandSlots.Render.Builder
import IslandSlots.Render.Reading
import IslandSlots.Render.RenderFunction
import IslandSlots.Script.Module

/-!
# Reconstruction

The render tree of a compiled component module: the tree that the actions of its render function
build.
-/

namespace IslandSlots

/-- The tree that actions build, for a source of `length` bytes. -/
def Tree.ofActions (actions : List Action) (length : Nat) : Except RenderError Tree := do
  let builder ← Builder.start.actAll actions
  builder.finish length

/-- The tree that the statements of a render function build, for a source of `length` bytes. -/
def Tree.ofStatements (helpers : HelperNames) (statements : List Script.Statement) (length : Nat) :
    Except RenderError Tree :=
  Tree.ofActions (Script.statementsActions helpers statements) length

/-- The render tree of a module, or nothing when it has no render function. -/
def reconstruct (source : String) (helpers : HelperNames) : Except RenderError (Option Tree) :=
  match Script.parseModule source with
  | .error error => .error (.scriptSyntax error.offset)
  | .ok module =>
    match Script.renderBody? helpers.renderFunctions module with
    | some statements => some <$> Tree.ofStatements helpers statements source.utf8ByteSize
    | none => .ok none

end IslandSlots
