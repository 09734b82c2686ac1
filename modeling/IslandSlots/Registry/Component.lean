import IslandSlots.Json.Reader
import IslandSlots.Json.Record
import IslandSlots.Path.Basic
import IslandSlots.Text.Search

/-!
# Registered components

The components a build knows about, as a list in JSON, and which of their files are islands: those
declared so, and those for the server alone with no component of the same name for the client.
-/

namespace IslandSlots

/-- Where a component runs. -/
inductive ComponentMode where
  /-- On the server alone. -/
  | server
  /-- On the client alone. -/
  | client
  /-- On both. -/
  | universal
  deriving DecidableEq, Repr

/-- A component that a build knows about. -/
structure RegisteredComponent where
  /-- Its name. -/
  pascalName : String
  /-- The file that holds it. -/
  filePath : Path
  /-- Whether it is declared to be an island. -/
  island : Bool
  /-- Where it runs. -/
  mode : ComponentMode
  deriving DecidableEq, Repr

namespace ComponentMode

/-- The word for a mode. -/
def name : ComponentMode → String
  | .server => "server"
  | .client => "client"
  | .universal => "universal"

/-- The mode that a word stands for; the word `all` is another one for both. -/
def ofName? (word : String) : Option ComponentMode :=
  if word = "server" then some .server
  else if word = "client" then some .client
  else if word = "universal" || word = "all" then some .universal
  else none

/-- Reads a mode: its word, or an object with that word as its only name and nothing in it. -/
def ofJson? : Json → Option ComponentMode
  | .string word => ofName? word
  | .object [(word, .null)] => ofName? word
  | _ => none

end ComponentMode

namespace RegisteredComponent

/-- The names of the fields in JSON. -/
def fieldNames : List String :=
  ["pascalName", "filePath", "island", "mode"]

/-- Reads a component. -/
def ofJson? (value : Json) : Option RegisteredComponent := do
  let [pascalName, filePath, island, mode] ← Json.fields? fieldNames value | none
  return {
    pascalName := ← Json.required Json.text? pascalName
    filePath := ⟨← Json.required Json.text? filePath⟩
    island := ← Json.orDefault Json.bool? false island
    mode := ← Json.orDefault ComponentMode.ofJson? .universal mode }

/-- Whether a component is for the server alone. -/
def isServerOnly (components : List RegisteredComponent) (component : RegisteredComponent) : Bool :=
  component.mode == .server &&
    !components.any fun other =>
      other.pascalName == component.pascalName && other.mode == .client

/-- Whether a component among others is an island. -/
def isIsland (components : List RegisteredComponent) (component : RegisteredComponent) : Bool :=
  component.island || isServerOnly components component

end RegisteredComponent

/-- The components a build knows about. -/
structure Registry where
  /-- The components in order. -/
  components : List RegisteredComponent
  deriving DecidableEq, Repr

namespace Registry

/-- Reads a registry from the text of a JSON array. -/
def parse? (text : String) : Option Registry := do
  return ⟨← (← (← Json.parse? text).items?).mapM RegisteredComponent.ofJson?⟩

/-- The components that are islands. -/
def islands (registry : Registry) : List RegisteredComponent :=
  registry.components.filter (RegisteredComponent.isIsland registry.components)

/-- The file of a module, which may be asked for with a query after it. -/
def modulePath (id : String) : Path :=
  ⟨((Text.splitString? "?" id).map Prod.fst).getD id⟩

/-- Whether a module is the file of an island. -/
def holdsIsland (registry : Registry) (id : String) : Bool :=
  registry.islands.any fun component => component.filePath.agrees (modulePath id)

end Registry

end IslandSlots
