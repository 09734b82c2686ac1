import IslandSlots.Json.Record

/-!
# Helper names

The names by which a render function is found and by which it calls the helpers that build its
output. Each has a usual value, and a configuration overrides some of them.
-/

namespace IslandSlots

/-- The names that the reader of render functions goes by. -/
structure HelperNames where
  /-- Top-level functions that hold render output. -/
  renderFunctions : List String
  /-- Appends a chunk of markup to the output. -/
  push : String
  /-- Renders markup for each item of a collection. -/
  renderList : String
  /-- Renders a child component. -/
  renderComponent : String
  /-- Wraps the functions of slots. -/
  withContext : String
  /-- Joins slots that are always there with slots that may be. -/
  createSlots : String
  /-- Makes a slot for each item of a collection. -/
  renderListSlots : String
  deriving DecidableEq, Repr

namespace HelperNames

/-- The usual names. -/
def usual : HelperNames where
  renderFunctions := ["_sfc_ssrRender", "_ssrRender", "_sfc_render", "ssrRender"]
  push := "_push"
  renderList := "_ssrRenderList"
  renderComponent := "_ssrRenderComponent"
  withContext := "_withCtx"
  createSlots := "_createSlots"
  renderListSlots := "_renderList"

/-- The names of the fields in a configuration. -/
def fieldNames : List String :=
  ["renderFunctions", "push", "renderList", "renderComponent", "withCtx", "createSlots",
    "renderListSlots"]

/-- Reads a configuration; a name it leaves out is the usual one. -/
def ofJson? (value : Json) : Option HelperNames := do
  let [renderFunctions, push, renderList, renderComponent, withContext, createSlots,
    renderListSlots] ← Json.fields? fieldNames value | none
  return {
    renderFunctions := ← Json.orDefault Json.texts? usual.renderFunctions renderFunctions
    push := ← Json.orDefault Json.text? usual.push push
    renderList := ← Json.orDefault Json.text? usual.renderList renderList
    renderComponent := ← Json.orDefault Json.text? usual.renderComponent renderComponent
    withContext := ← Json.orDefault Json.text? usual.withContext withContext
    createSlots := ← Json.orDefault Json.text? usual.createSlots createSlots
    renderListSlots := ← Json.orDefault Json.text? usual.renderListSlots renderListSlots }

/-- Writes all names as a configuration. -/
def toJson (helpers : HelperNames) : Json :=
  .object [
    ("renderFunctions", .array (helpers.renderFunctions.map .string)),
    ("push", .string helpers.push),
    ("renderList", .string helpers.renderList),
    ("renderComponent", .string helpers.renderComponent),
    ("withCtx", .string helpers.withContext),
    ("createSlots", .string helpers.createSlots),
    ("renderListSlots", .string helpers.renderListSlots)]

end HelperNames

end IslandSlots
