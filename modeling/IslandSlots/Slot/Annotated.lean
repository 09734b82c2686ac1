import IslandSlots.Component.File
import IslandSlots.Registry.Component
import IslandSlots.Slot.Outlet
import IslandSlots.Template.Nesting

/-!
# Annotated component files

A component file with every slot outlet of its template annotated and the helper for loops
imported, in the first script block if there is one and else in a new block in front of the file.
A file without outlets is left as it is.
-/

namespace IslandSlots

/-- Why a component file cannot be annotated. -/
inductive AnnotationError where
  /-- It cannot be read as blocks. -/
  | file (error : ComponentFileError)
  /-- Its template is at fault. -/
  | template (error : TemplateError)
  /-- Two changes to it are in conflict. -/
  | conflict (error : EditConflict)
  deriving DecidableEq, Repr

/-- The statement that imports the helper for loops, unless another one is given. -/
def usualHelperImport : String :=
  "import \x7b vforToArray as " ++ SlotData.loopHelper ++ " \x7d from '#app/components/utils'"

/-- Whether a character may follow the name of an outlet's element. -/
def endsSlotTag (c : Char) : Bool :=
  Text.isBlank c || c == '/' || c == '>'

/-- Whether a text has something that looks like the tag of an outlet. -/
def hasSlotTag : List Char → Bool
  | [] => false
  | c :: rest =>
    (Text.after? ['<', 's', 'l', 'o', 't'] (c :: rest)).any
      (fun behind => behind.head?.any endsSlotTag) || hasSlotTag rest

/-- Whether a text has something that looks like the tag of a template. -/
def hasTemplateTag (text : List Char) : Bool :=
  Text.occursIn ('<' :: BlockBody.templateName) text

/-- The change that imports the helper for loops. -/
def importEdit (file : ComponentFile) (helperImport : String) : Edit UInt8 :=
  match file.firstScript? with
  | some script => .insertRight script.openEnd (Text.bytes ("\n" ++ helperImport))
  | none =>
    .insertLeft 0 (Text.bytes ("<script setup>\n" ++ helperImport ++ "\n</script>\n"))

/-- The changes to a file with the given outlets in its template. -/
def annotationEdits (file : ComponentFile) (outlets : List Outlet) (helperImport : String) :
    Except TemplateError (List (Edit UInt8)) := do
  return (← outlets.mapM Outlet.edits).flatten ++ [importEdit file helperImport]

/-- The text that edits make of a file. -/
def editedText (edits : List (Edit UInt8)) (source : String) : Except EditConflict String :=
  (Edit.apply edits (Text.bytes source)).map fun bytes => String.ofList (Text.decode bytes)

/-- A component file with its outlets annotated, or nothing if it has none. -/
def annotate (source : String) (helperImport : String) :
    Except AnnotationError (Option String) := do
  if !hasSlotTag source.toList || !hasTemplateTag source.toList then return none
  let file ← (ComponentFile.read source).mapError .file
  match file.template with
  | none => return none
  | some template =>
    let nodes ← (TemplateNode.forest template.openEnd template.content).mapError .template
    let outlets := TemplateNode.allOutlets nodes
    if outlets.isEmpty then return none
    let edits ← (annotationEdits file outlets helperImport).mapError .template
    return some (← (editedText edits source).mapError .conflict)

/-- Annotates the file of a module if it is an island of the registry. -/
def Registry.annotate (registry : Registry) (id source helperImport : String) :
    Except AnnotationError (Option String) :=
  if registry.holdsIsland id then IslandSlots.annotate source helperImport else .ok none

end IslandSlots
