import IslandSlots.Proofs.Slot.Annotation
import IslandSlots.Proofs.Template.Cursor
import IslandSlots.Proofs.Text.CursorEdits

/-!
# Annotating a file with a cursor

The template of a file is read with a cursor, and the edits for its outlets are made with another. No
step is stopped, for any file: every byte that is read is there, no part of the file is cut inside a
character, every loop ends, and each edit by itself is between characters.
-/

namespace IslandSlots

open TemplateNode

/-- The edits for a file are between its characters. -/
theorem fits_annotationEdits {source helperImport : String} {file : ComponentFile}
    {template : Block} {nodes : List TemplateNode} {edits : List (Edit UInt8)}
    (found : ComponentFile.read source = .ok file) (template_eq : file.template = some template)
    (forest_eq : forest template.openEnd template.content = .ok nodes)
    (edits_eq : annotationEdits file (allOutlets nodes) helperImport = .ok edits) :
    ∀ edit ∈ edits, edit.FitsText source.toList := by
  intro edit member
  obtain ⟨changes, perm, -, whole⟩ := exists_changes found template_eq forest_eq helperImport
  obtain ⟨proper, made⟩ := proper_annotationEdits found template_eq forest_eq edits_eq
  have listed : edit.change ∈ changes :=
    (made.trans perm.symm).mem_iff.mp (List.mem_map_of_mem member)
  obtain ⟨start, stop, content⟩ := (whole edit.change listed).2
  exact ⟨proper edit member, start, stop, content⟩

namespace Cursor

/-- Takes edits of a text in and makes them. -/
def editedText (edits : List (Edit UInt8)) (source : String) :
    Unstopped (Except EditConflict String) := do
  edits.forM (give source.toList)
  let made ← applyEdits source.toList edits
  return made.map fun bytes => String.ofList (Text.decode bytes)

/-- A component file with its outlets annotated with a cursor, or nothing if it has none. -/
def annotate (source helperImport : String) :
    Unstopped (Except AnnotationError (Option String)) := do
  if !hasSlotTag source.toList || !hasTemplateTag source.toList then return .ok none
  match ComponentFile.read source with
  | .error error => return .error (.file error)
  | .ok file =>
    match file.template with
    | none => return .ok none
    | some template =>
      match ← forest template.openEnd template.content with
      | .error error => return .error (.template error)
      | .ok nodes =>
        if (allOutlets nodes).isEmpty then return .ok none
        match annotationEdits file (allOutlets nodes) helperImport with
        | .error error => return .error (.template error)
        | .ok edits => return (← editedText edits source).mapError .conflict |>.map some

/-- Edits between the characters of a text are taken in. -/
theorem forM_give_eq {text : List Char} {edits : List (Edit UInt8)}
    (fits : ∀ edit ∈ edits, edit.FitsText text) : edits.forM (give text) = .ok () := by
  induction edits with
  | nil => rfl
  | cons edit others induction =>
      obtain ⟨first, rest⟩ := List.forall_mem_cons.mp fits
      rw [List.forM, give_eq first, ok_bind, induction rest]

/-- Edits between the characters of a text are made. -/
theorem editedText_eq {edits : List (Edit UInt8)} {source : String}
    (fits : ∀ edit ∈ edits, edit.FitsText source.toList) :
    editedText edits source = .ok (IslandSlots.editedText edits source) := by
  rw [editedText, forM_give_eq fits, ok_bind, applyEdits_eq fits]
  rfl

/-- The run of a cursor through a file ends as annotating it does. -/
theorem annotate_eq (source helperImport : String) :
    annotate source helperImport = .ok (IslandSlots.annotate source helperImport) := by
  rw [annotate, IslandSlots.annotate]
  cases !hasSlotTag source.toList || !hasTemplateTag source.toList with
  | true => rfl
  | false =>
      cases found : ComponentFile.read source with
      | error error => rfl
      | ok file =>
          simp only [Except.mapError, bind, Except.bind]
          cases template_eq : file.template with
          | none => rfl
          | some template =>
              simp only [forest_eq]
              cases nodes_eq : TemplateNode.forest template.openEnd template.content with
              | error error => rfl
              | ok nodes =>
                  simp only
                  cases (allOutlets nodes).isEmpty with
                  | true => rfl
                  | false =>
                      cases edits_eq : annotationEdits file (allOutlets nodes) helperImport with
                      | error error => rfl
                      | ok edits =>
                          simp only [editedText_eq
                            (fits_annotationEdits found template_eq nodes_eq edits_eq)]
                          cases IslandSlots.editedText edits source <;> rfl

/-- Reading a template is never stopped, wherever it stands. Neither is annotating a file: each edit
that is made of it is between characters, and what is replaced is not empty and ends in the file. -/
theorem annotate_unstopped (source helperImport : String) :
    (∀ base template, forest base template = .ok (TemplateNode.forest base template)) ∧
      annotate source helperImport = .ok (IslandSlots.annotate source helperImport) ∧
      ∀ file template nodes edits, ComponentFile.read source = .ok file →
        file.template = some template →
        TemplateNode.forest template.openEnd template.content = .ok nodes →
        annotationEdits file (allOutlets nodes) helperImport = .ok edits →
          editedText edits source = .ok (IslandSlots.editedText edits source) ∧
            ∀ edit ∈ edits, edit.FitsText source.toList ∧ edit.change.stop ≤ size source.toList := by
  refine ⟨forest_eq, annotate_eq source helperImport, ?_⟩
  intro file template nodes edits found template_eq nodes_eq edits_eq
  have fits := fits_annotationEdits found template_eq nodes_eq edits_eq
  exact ⟨editedText_eq fits, fun edit member =>
    ⟨fits edit member, le_size_of_isCut (fits edit member).stop⟩⟩

/-- An outlet that stands behind a letter of two bytes and holds another. -/
theorem annotate_unstopped_amongLetters :
    let source := "<template>é<slot>à</slot></template>"
    ∃ file template nodes edits, ComponentFile.read source = .ok file ∧
      file.template = some template ∧
      TemplateNode.forest template.openEnd template.content = .ok nodes ∧
      annotationEdits file (allOutlets nodes) "import f" = .ok edits ∧ edits.length = 5 ∧
      ∀ edit ∈ edits, edit.FitsText source.toList ∧ edit.change.stop ≤ size source.toList := by
  intro source
  let template : Block := ⟨[], "é<slot>à</slot>", 10⟩
  let file : ComponentFile := ⟨some template, none, none, none⟩
  have found : ComponentFile.read source = .ok file := eq_ok_of_toOption (by decide +kernel)
  obtain ⟨nodes, nodes_eq⟩ := exists_eq_ok
    (TemplateNode.forest template.openEnd template.content) (by decide +kernel)
  have made : (TemplateNode.forest template.openEnd template.content >>= fun nodes =>
      List.length <$> annotationEdits file (allOutlets nodes) "import f") = .ok 5 :=
    eq_ok_of_toOption (by decide +kernel)
  rw [nodes_eq] at made
  obtain ⟨edits, edits_eq, count⟩ := map_eq_ok.mp made
  obtain ⟨-, -, each⟩ := annotate_unstopped source "import f"
  exact ⟨file, template, nodes, edits, found, rfl, nodes_eq, edits_eq, count,
    (each file template nodes edits found rfl nodes_eq edits_eq).2⟩

end Cursor

end IslandSlots
