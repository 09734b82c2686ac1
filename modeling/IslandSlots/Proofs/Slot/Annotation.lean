import IslandSlots.Proofs.Slot.Changes
import Mathlib.Data.List.Sort

/-!
# Annotating a file

The edits for a component file make the changes of its outlets and put one import in, and nothing
else. They are never in conflict, and what they make of the file is text.
-/

namespace IslandSlots

open Replacement TemplateNode

/-! ## The whole file -/

theorem allOutlets_significant (nodes : List TemplateNode) :
    allOutlets (significant nodes) = allOutlets nodes := by
  induction nodes with
  | nil => rfl
  | cons node nodes induction =>
      rw [significant_cons, allOutlets]
      split
      · rename_i blank
        have none_here : node.outlets = [] := by
          cases node with
          | element => cases blank
          | _ => rfl
        rw [none_here, induction]
        rfl
      · rw [allOutlets, induction]

/-- An insertion beside a stretch can be put in order with the changes inside it. -/
theorem exists_ordered_insertion {low high place : Nat} {changes : List (Replacement UInt8)}
    (inside : InOrder low high changes) (beside : place ≤ low ∨ high ≤ place) (put : String) :
    ∃ ordered : List (Replacement UInt8), changes <:+: ordered ∧
      ordered.Perm (changes ++ [insertion place put]) ∧ ordered.Pairwise Before := by
  rcases beside with before | behind
  · refine ⟨insertion place put :: changes, (List.suffix_cons _ changes).isInfix,
      (List.perm_append_singleton _ _).symm,
      List.pairwise_cons.mpr ⟨fun change found => ?_, inside.ordered⟩⟩
    obtain ⟨_, _, _, _, _⟩ := inside.between change found
    constructor <;> simp only [insertion] <;> omega
  · refine ⟨_, (List.prefix_append changes _).isInfix, .refl _,
      List.pairwise_append.mpr ⟨inside.ordered, List.pairwise_singleton _ _, ?_⟩⟩
    intro change found last last_found
    obtain rfl := List.mem_singleton.mp last_found
    obtain ⟨_, _, _, _, _⟩ := inside.between change found
    constructor <;> simp only [insertion] <;> omega

/-- The edits for outlets make their changes. -/
theorem map_change_flatten {outlets : List Outlet} {edits : List (List (Edit UInt8))}
    (whole : ∀ outlet ∈ outlets, outlet.opening.selfClosing → outlet.closing = none)
    (found : outlets.mapM Outlet.edits = .ok edits) :
    (edits.flatten.map Edit.change).Perm (outlets.flatMap Outlet.changes) := by
  induction outlets generalizing edits with
  | nil =>
      cases found
      exact .refl _
  | cons outlet outlets induction =>
      rw [List.mapM_cons] at found
      obtain ⟨first, first_eq, found⟩ := bind_eq_ok.mp found
      obtain ⟨rest, rest_eq, found⟩ := bind_eq_ok.mp found
      cases found
      rw [List.flatten_cons, List.map_append, List.flatMap_cons]
      exact (Outlet.map_change_edits (whole outlet List.mem_cons_self) first_eq).append
        (induction (fun other member => whole other (List.mem_cons_of_mem outlet member)) rest_eq)

theorem proper_flatten {outlets : List Outlet} {edits : List (List (Edit UInt8))}
    (opened : ∀ outlet ∈ outlets, outlet.opening.span.start < outlet.opening.span.stop)
    (closed : ∀ outlet ∈ outlets, ∀ closing ∈ outlet.closing, closing.start < closing.stop)
    (found : outlets.mapM Outlet.edits = .ok edits) : ∀ edit ∈ edits.flatten, edit.Proper := by
  induction outlets generalizing edits with
  | nil =>
      cases found
      exact List.forall_mem_nil _
  | cons outlet outlets induction =>
      rw [List.mapM_cons] at found
      obtain ⟨first, first_eq, found⟩ := bind_eq_ok.mp found
      obtain ⟨rest, rest_eq, found⟩ := bind_eq_ok.mp found
      cases found
      rw [List.flatten_cons]
      exact List.forall_mem_append.mpr
        ⟨Outlet.proper_edits (opened outlet List.mem_cons_self) (closed outlet List.mem_cons_self)
          first_eq,
        induction (fun other member => opened other (List.mem_cons_of_mem outlet member))
          (fun other member => closed other (List.mem_cons_of_mem outlet member)) rest_eq⟩

theorem change_importEdit (file : ComponentFile) (helperImport : String) :
    (importEdit file helperImport).change = importInsertion file helperImport ∧
      (importEdit file helperImport).Proper := by
  rw [importEdit, importInsertion]
  cases file.firstScript? <;> exact ⟨rfl, trivial⟩

section Reading

variable {source : String} {file : ComponentFile} {template : Block}

/-- The content of the template stands in the file where it says. -/
theorem exists_bytes_eq (found : ComponentFile.read source = .ok file)
    (template_eq : file.template = some template) :
    ∃ before after, Text.bytes source = before ++ Text.bytes template.content ++ after ∧
      template.openEnd = before.length := by
  obtain ⟨before, after, source_eq, place_eq⟩ :=
    ComponentFile.standsIn_of_read found (.inl template_eq)
  refine ⟨Text.encode before, Text.encode after, ?_, ?_⟩
  · simp only [Text.bytes, source_eq, Text.encode_append]
  · rw [place_eq, Text.length_encode]

/-- The nodes of the template of a file are laid out over it, but for blank texts. -/
theorem laid_of_read {nodes : List TemplateNode} (found : ComponentFile.read source = .ok file)
    (template_eq : file.template = some template)
    (forest_eq : forest template.openEnd template.content = .ok nodes) :
    ∃ roots, Laid (Text.encode source.toList) template.openEnd template.stop roots ∧
      nodes = significant roots := by
  obtain ⟨before, after, bytes_eq, place_eq⟩ := exists_bytes_eq found template_eq
  rw [place_eq] at forest_eq
  have laid := laid_of_forest bytes_eq forest_eq
  rwa [← place_eq, Text.bytes, Text.bytes, Text.length_encode] at laid

/-- The import is put between characters, beside the template. -/
theorem exists_importInsertion (found : ComponentFile.read source = .ok file)
    (template_eq : file.template = some template) (helperImport : String) :
    ∃ place put, importInsertion file helperImport = insertion place put ∧
      Text.IsCut source.toList place ∧ (place ≤ template.openEnd ∨ template.stop ≤ place) := by
  rw [importInsertion]
  split
  · rename_i script script_eq
    obtain ⟨before, after, source_eq, place_eq⟩ :=
      ComponentFile.standsIn_of_read found (.inr script_eq)
    refine ⟨_, _, rfl, ⟨before, script.content.toList ++ after, ?_, place_eq.symm⟩, ?_⟩
    · rw [source_eq, List.append_assoc]
    · have apart := ComponentFile.apart_of_read found template_eq script_eq
      simp only [Block.stop] at apart ⊢
      omega
  · exact ⟨_, _, rfl, Text.isCut_zero _, .inl (Nat.zero_le _)⟩

/-- The changes for a file have an order, and each begins and ends between characters. -/
theorem exists_changes {nodes : List TemplateNode} (found : ComponentFile.read source = .ok file)
    (template_eq : file.template = some template)
    (forest_eq : forest template.openEnd template.content = .ok nodes) (helperImport : String) :
    ∃ changes : List (Replacement UInt8),
      changes.Perm ((allOutlets nodes).flatMap Outlet.changes ++
        [importInsertion file helperImport]) ∧
      changes.Pairwise Before ∧
      ∀ change ∈ changes, change.start ≤ change.stop ∧ change.Whole source.toList := by
  obtain ⟨roots, laid, rfl⟩ := laid_of_read found template_eq forest_eq
  obtain ⟨place, put, import_eq, cut, beside⟩ :=
    exists_importInsertion found template_eq helperImport
  have inside_perm := laid.ordered_perm none
  have in_order := laid.inOrder none
  rw [Outlet.flatMap_loopInsertions_none, List.nil_append] at inside_perm
  obtain ⟨changes, -, perm, ordered⟩ := exists_ordered_insertion in_order beside put
  rw [allOutlets_significant, import_eq]
  refine ⟨changes, perm.trans (inside_perm.append_right _), ordered, fun change member => ?_⟩
  rcases List.mem_append.mp (perm.mem_iff.mp member) with here | last
  · obtain ⟨outlet, outlet_member, change_member⟩ :=
      List.mem_flatMap.mp (inside_perm.mem_iff.mp here)
    obtain ⟨stands, -, inner, next, children, closes⟩ := laid.outlet outlet_member
    exact ⟨(in_order.between change here).forward,
      Outlet.whole_changes stands children closes change change_member⟩
  · obtain rfl := List.mem_singleton.mp last
    exact ⟨Nat.le_refl place, whole_insertion cut put⟩

/-- The edits for a file make the changes of its outlets and put the import in. -/
theorem proper_annotationEdits {nodes : List TemplateNode} {helperImport : String}
    {edits : List (Edit UInt8)} (found : ComponentFile.read source = .ok file)
    (template_eq : file.template = some template)
    (forest_eq : forest template.openEnd template.content = .ok nodes)
    (edits_eq : annotationEdits file (allOutlets nodes) helperImport = .ok edits) :
    (∀ edit ∈ edits, edit.Proper) ∧
      (edits.map Edit.change).Perm ((allOutlets nodes).flatMap Outlet.changes ++
        [importInsertion file helperImport]) := by
  obtain ⟨roots, laid, rfl⟩ := laid_of_read found template_eq forest_eq
  rw [allOutlets_significant] at edits_eq ⊢
  obtain ⟨changed, changed_eq, same⟩ := bind_eq_ok.mp edits_eq
  cases same
  have whole : ∀ outlet ∈ allOutlets roots, outlet.opening.selfClosing → outlet.closing = none :=
    fun outlet member selfClosing => ((laid.outlet member).2.1 selfClosing).2
  have opened : ∀ outlet ∈ allOutlets roots,
      outlet.opening.span.start < outlet.opening.span.stop := by
    intro outlet member
    have name := (laid.outlet member).1.name_lt
    omega
  have closed : ∀ outlet ∈ allOutlets roots, ∀ closing ∈ outlet.closing,
      closing.start < closing.stop := by
    intro outlet member closing closing_eq
    obtain ⟨-, -, inner, next, -, closes⟩ := laid.outlet member
    rw [Option.mem_def.mp closing_eq] at closes
    cases closes with
    | closing holds spelled => exact lt_of_isClosing holds spelled
  obtain ⟨change_eq, proper⟩ := change_importEdit file helperImport
  refine ⟨List.forall_mem_append.mpr ⟨proper_flatten opened closed changed_eq,
    List.forall_mem_singleton.mpr proper⟩, ?_⟩
  rw [List.map_append, List.map_singleton, change_eq]
  exact (map_change_flatten whole changed_eq).append_right _

/-- A file becomes another by the changes of outlets and one insertion, each made once at its place,
and is the same but for these. -/
structure Changed (source out : String) (imported : Replacement UInt8) (outlets : List Outlet)
    (changes : List (Replacement UInt8)) : Prop where
  /-- The changes are those of the outlets and the insertion. -/
  all : changes.Perm (outlets.flatMap Outlet.changes ++ [imported])
  /-- Each comes before those after it. -/
  ordered : changes.Pairwise Before
  /-- Each is inside the file. -/
  inside : ∀ change ∈ changes,
    change.start ≤ change.stop ∧ change.stop ≤ (Text.bytes source).length
  /-- All that is not changed is copied. -/
  copied : Text.bytes out = splice (Text.bytes source) 0 changes

/-- What is put in for an outlet stands in the changed file. -/
theorem Changed.exists_content {source out : String} {imported : Replacement UInt8}
    {outlets : List Outlet} {changes : List (Replacement UInt8)}
    (changed : Changed source out imported outlets changes) {outlet : Outlet}
    (member : outlet ∈ outlets) :
    ∀ change ∈ outlet.changes, ∃ front back, Text.bytes out = front ++ change.content ++ back := by
  intro change found
  have listed := List.mem_append_left [imported] (List.mem_flatMap.mpr ⟨outlet, member, found⟩)
  rw [changed.copied]
  exact Replacement.exists_content (changed.all.mem_iff.mpr listed)

/-- What a file becomes is told by the changes in whatever order they are found. -/
theorem Changed.eq_of_splice {source out made : String} {imported : Replacement UInt8}
    {outlets : List Outlet} {changes others : List (Replacement UInt8)}
    (changed : Changed source out imported outlets changes)
    (perm : others.Perm (outlets.flatMap Outlet.changes ++ [imported]))
    (ordered : others.Pairwise Before)
    (made_eq : Text.bytes made = splice (Text.bytes source) 0 others) : out = made := by
  have same : changes = others :=
    eq_of_perm (changed.all.trans perm.symm) changed.ordered ordered
      fun change member => (changed.inside change member).1
  subst same
  have bytes_eq := changed.copied.trans made_eq.symm
  rw [← String.toList_inj, ← Text.decode_encode out.toList, ← Text.decode_encode made.toList]
  exact congrArg Text.decode bytes_eq

/-- The edits for a file can be applied, and they make their changes to it and no others. -/
theorem exists_editedText {nodes : List TemplateNode} {helperImport : String}
    {edits : List (Edit UInt8)} (found : ComponentFile.read source = .ok file)
    (template_eq : file.template = some template)
    (forest_eq : forest template.openEnd template.content = .ok nodes)
    (edits_eq : annotationEdits file (allOutlets nodes) helperImport = .ok edits) :
    ∃ out changes, editedText edits source = .ok out ∧
      Changed source out (importInsertion file helperImport) (allOutlets nodes) changes := by
  obtain ⟨changes, perm, ordered, whole⟩ :=
    exists_changes found template_eq forest_eq helperImport
  obtain ⟨proper, made⟩ := proper_annotationEdits found template_eq forest_eq edits_eq
  have inside : ∀ change ∈ changes,
      change.start ≤ change.stop ∧ change.stop ≤ (Text.bytes source).length := by
    intro change member
    obtain ⟨forward, between⟩ := whole change member
    exact ⟨forward, by simpa [Text.bytes, Text.length_encode] using between.stop.le⟩
  have applied := Edit.apply_eq_splice proper (made.trans perm.symm) ordered inside
  obtain ⟨spliced, spliced_eq⟩ := exists_splice_encode (Text.isCut_zero source.toList) ordered
    fun change member =>
      ⟨Nat.zero_le _, (whole change member).2.start, (whole change member).2.stop,
        (whole change member).2.content⟩
  refine ⟨String.ofList spliced, changes, ?_, ⟨perm, ordered, inside, ?_⟩⟩
  · rw [editedText, applied, Text.bytes, spliced_eq]
    exact congrArg (fun text => Except.ok (String.ofList text)) (Text.decode_encode spliced)
  · rw [Text.bytes, Text.bytes, spliced_eq, String.toList_ofList]

end Reading

/-- A file with outlets that have edits is annotated. -/
theorem exists_annotate {source helperImport : String} {file : ComponentFile} {template : Block}
    {nodes : List TemplateNode} {edits : List (Edit UInt8)}
    (tags : (!hasSlotTag source.toList || !hasTemplateTag source.toList) = false)
    (found : ComponentFile.read source = .ok file) (template_eq : file.template = some template)
    (forest_eq : forest template.openEnd template.content = .ok nodes)
    (filled : (allOutlets nodes).isEmpty = false)
    (edits_eq : annotationEdits file (allOutlets nodes) helperImport = .ok edits) :
    ∃ out changes, annotate source helperImport = .ok (some out) ∧
      Changed source out (importInsertion file helperImport) (allOutlets nodes) changes := by
  obtain ⟨out, changes, made_eq, changed⟩ := exists_editedText found template_eq forest_eq edits_eq
  refine ⟨out, changes, ?_, changed⟩
  rw [annotate, tags, found]
  simp only [Except.mapError, bind, Except.bind, template_eq, forest_eq, filled, edits_eq, made_eq]
  rfl

/-- A file with outlets that have edits becomes what their changes, each before those after it, make
of it. -/
theorem annotate_eq_of_splice {source helperImport out : String} {file : ComponentFile}
    {template : Block} {nodes : List TemplateNode} {edits : List (Edit UInt8)}
    {changes : List (Replacement UInt8)}
    (tags : (!hasSlotTag source.toList || !hasTemplateTag source.toList) = false)
    (found : ComponentFile.read source = .ok file) (template_eq : file.template = some template)
    (forest_eq : forest template.openEnd template.content = .ok nodes)
    (filled : (allOutlets nodes).isEmpty = false)
    (edits_eq : annotationEdits file (allOutlets nodes) helperImport = .ok edits)
    (perm : changes.Perm ((allOutlets nodes).flatMap Outlet.changes ++
      [importInsertion file helperImport]))
    (ordered : changes.Pairwise Before)
    (made_eq : Text.bytes out = splice (Text.bytes source) 0 changes) :
    annotate source helperImport = .ok (some out) := by
  obtain ⟨made, _, annotated, changed⟩ :=
    exists_annotate tags found template_eq forest_eq filled edits_eq
  rw [annotated, changed.eq_of_splice perm ordered made_eq]

/-- A file is left as it is, or cannot be read, or has outlets with edits. -/
theorem annotate_steps (source helperImport : String) :
    annotate source helperImport = .ok none ∨
    (∃ error, annotate source helperImport = .error (.file error)) ∨
    (∃ error, annotate source helperImport = .error (.template error)) ∨
    ∃ file template nodes edits,
      (!hasSlotTag source.toList || !hasTemplateTag source.toList) = false ∧
      ComponentFile.read source = .ok file ∧ file.template = some template ∧
      forest template.openEnd template.content = .ok nodes ∧ (allOutlets nodes).isEmpty = false ∧
      annotationEdits file (allOutlets nodes) helperImport = .ok edits := by
  have steps := annotate.eq_1 source helperImport
  cases tags : !hasSlotTag source.toList || !hasTemplateTag source.toList with
  | true => exact .inl (by rw [steps, tags]; rfl)
  | false =>
      rw [tags] at steps
      cases found : ComponentFile.read source with
      | error error => exact .inr (.inl ⟨error, by rw [steps, found]; rfl⟩)
      | ok file =>
          simp only [found, Except.mapError, bind, Except.bind] at steps
          cases template_eq : file.template with
          | none => exact .inl (by simp only [steps, template_eq]; rfl)
          | some template =>
              simp only [template_eq] at steps
              cases forest_eq : forest template.openEnd template.content with
              | error error =>
                  exact .inr (.inr (.inl ⟨error, by simp only [steps, forest_eq]; rfl⟩))
              | ok nodes =>
                  simp only [forest_eq] at steps
                  cases filled : (allOutlets nodes).isEmpty with
                  | true => exact .inl (by simp only [steps, filled]; rfl)
                  | false =>
                      simp only [filled] at steps
                      cases edits_eq : annotationEdits file (allOutlets nodes) helperImport with
                      | error error =>
                          exact .inr (.inr (.inl ⟨error, by simp only [steps, edits_eq]; rfl⟩))
                      | ok edits =>
                          exact .inr (.inr (.inr ⟨file, template, nodes, edits, rfl, rfl,
                            template_eq, forest_eq, filled, edits_eq⟩))

/-- A file is left as it is, or cannot be read, or is changed for its outlets. -/
theorem annotate_cases (source helperImport : String) :
    annotate source helperImport = .ok none ∨
    (∃ error, annotate source helperImport = .error (.file error)) ∨
    (∃ error, annotate source helperImport = .error (.template error)) ∨
    ∃ file template nodes out changes, ComponentFile.read source = .ok file ∧
      file.template = some template ∧ forest template.openEnd template.content = .ok nodes ∧
      annotate source helperImport = .ok (some out) ∧
      Changed source out (importInsertion file helperImport) (allOutlets nodes) changes := by
  rcases annotate_steps source helperImport with
    nothing | failed | failed |
      ⟨file, template, nodes, edits, tags, found, template_eq, forest_eq, filled, edits_eq⟩
  · exact .inl nothing
  · exact .inr (.inl failed)
  · exact .inr (.inr (.inl failed))
  · obtain ⟨out, changes, annotated, changed⟩ :=
      exists_annotate tags found template_eq forest_eq filled edits_eq
    exact .inr (.inr (.inr ⟨file, template, nodes, out, changes, found, template_eq, forest_eq,
      annotated, changed⟩))

/-- A file that is annotated is changed for its outlets. -/
theorem exists_changed {source helperImport out : String}
    (annotated : annotate source helperImport = .ok (some out)) :
    ∃ file template nodes changes, ComponentFile.read source = .ok file ∧
      file.template = some template ∧ forest template.openEnd template.content = .ok nodes ∧
      Changed source out (importInsertion file helperImport) (allOutlets nodes) changes := by
  rcases annotate_cases source helperImport with
    nothing | ⟨error, failed⟩ | ⟨error, failed⟩ |
      ⟨file, template, nodes, made, changes, found, template_eq, forest_eq, made_eq, changed⟩
  · cases nothing.symm.trans annotated
  · cases failed.symm.trans annotated
  · cases failed.symm.trans annotated
  · cases made_eq.symm.trans annotated
    exact ⟨file, template, nodes, changes, found, template_eq, forest_eq, changed⟩

/-- Changes never meet in a way that they cannot all be made. -/
theorem annotate_ne_conflict (source helperImport : String) (conflict : EditConflict) :
    annotate source helperImport ≠ .error (.conflict conflict) := by
  rcases annotate_cases source helperImport with
    nothing | ⟨error, failed⟩ | ⟨error, failed⟩ | ⟨_, _, _, _, _, -, -, -, annotated, -⟩
  · simp [nothing]
  · simp [failed]
  · simp [failed]
  · simp [annotated]

/-- Annotating a file never ends in a conflict, and what it gives is the file with every element
named `slot` in the template changed, whatever it stands in, and the import put in, and with nothing
else lost, doubled or moved. -/
theorem annotate_changed (source helperImport : String) :
    (∀ conflict, annotate source helperImport ≠ .error (.conflict conflict)) ∧
    ∀ out, annotate source helperImport = .ok (some out) →
      ∃ file template nodes changes, ComponentFile.read source = .ok file ∧
        file.template = some template ∧ forest template.openEnd template.content = .ok nodes ∧
        (∀ outlet : Outlet, outlet ∈ allOutlets nodes ↔ outlet.opening.tag = "slot" ∧ ∃ ancestors,
          Occurs nodes ancestors (.element outlet.opening outlet.children outlet.closing)) ∧
        Changed source out (importInsertion file helperImport) (allOutlets nodes) changes := by
  refine ⟨annotate_ne_conflict source helperImport, fun out annotated => ?_⟩
  obtain ⟨file, template, nodes, changes, found, template_eq, forest_eq, changed⟩ :=
    exists_changed annotated
  exact ⟨file, template, nodes, changes, found, template_eq, forest_eq,
    fun outlet => mem_allOutlets_iff, changed⟩

/-- An outlet of two nodes in the element that another outlet loops, before a script. -/
theorem annotate_changed_outletInLoop :
    let source := "<template><slot v-for='x in xs'><p>" ++
      "<slot v-for='y in x' :name='f(\"a\")'>b<i/></slot></p></slot></template>" ++
      "<script>let a</script>"
    let out := "<template><div style=\"display: contents;\" nuxt-ssr-slot-name=\"default\" " ++
      ":nuxt-ssr-slot-data=\"JSON.stringify(__vforToArray(xs).map(x => (\x7b\x7d)))\">" ++
      "<div nuxt-slot-fallback-start=\"default\"/><p v-for=\"x in xs\">" ++
      "<div style=\"display: contents;\" :nuxt-ssr-slot-name=\"f(&quot;a&quot;)\" " ++
      ":nuxt-ssr-slot-data=\"JSON.stringify(__vforToArray(x).map(y => (\x7b\x7d)))\">" ++
      "<div :nuxt-slot-fallback-start=\"f(&quot;a&quot;)\"/>" ++
      "<div v-for=\"y in x\" style=\"display: contents;\">b<i/></div>" ++
      "<div :nuxt-slot-fallback-end=\"f(&quot;a&quot;)\"/></div></p>" ++
      "<div nuxt-slot-fallback-end=\"default\"/></div></template>" ++
      "<script>\nimport flet a</script>"
    annotate source "import f" = .ok (some out) ∧
      ∃ file template nodes changes, ComponentFile.read source = .ok file ∧
        file.template = some template ∧ forest template.openEnd template.content = .ok nodes ∧
        (∀ outlet : Outlet, outlet ∈ allOutlets nodes ↔ outlet.opening.tag = "slot" ∧ ∃ ancestors,
          Occurs nodes ancestors (.element outlet.opening outlet.children outlet.closing)) ∧
        Changed source out (importInsertion file "import f") (allOutlets nodes) changes := by
  intro source out
  let content := "<slot v-for='x in xs'><p>" ++
    "<slot v-for='y in x' :name='f(\"a\")'>b<i/></slot></p></slot>"
  let file : ComponentFile :=
    ⟨some ⟨[], content, 10⟩, none, some ⟨[], "let a", 113⟩, none⟩
  let sorted (nodes : List TemplateNode) : List (Replacement UInt8) :=
    ((allOutlets nodes).flatMap Outlet.changes ++ [importInsertion file "import f"]).insertionSort
      fun first second => first.start ≤ second.start
  have made : (fun nodes => decide ((allOutlets nodes).isEmpty = false ∧
      (annotationEdits file (allOutlets nodes) "import f").isOk ∧
      (sorted nodes).Pairwise Before ∧
      out.toByteArray.data.toList =
        splice source.toByteArray.data.toList 0 (sorted nodes))) <$> forest 10 content =
      .ok true := eq_ok_of_toOption (by decide +kernel)
  obtain ⟨nodes, forest_eq, holds⟩ := map_eq_ok.mp made
  obtain ⟨filled, some_edits, ordered, made_eq⟩ := of_decide_eq_true holds
  rw [← Text.bytes_eq_toByteArray, ← Text.bytes_eq_toByteArray] at made_eq
  obtain ⟨edits, edits_eq⟩ := exists_eq_ok _ some_edits
  have annotated : annotate source "import f" = .ok (some out) :=
    annotate_eq_of_splice (by decide +kernel) (eq_ok_of_toOption (by decide +kernel)) rfl forest_eq
      filled edits_eq (List.perm_insertionSort _ _) ordered made_eq
  exact ⟨annotated, (annotate_changed source "import f").2 out annotated⟩

end IslandSlots
