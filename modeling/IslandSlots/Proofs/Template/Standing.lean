import IslandSlots.Proofs.Outcome
import IslandSlots.Proofs.Text.Utf8
import IslandSlots.Template.Nesting
import Mathlib.Data.List.TakeWhile

/-!
# Where the parts of a template stand

The pieces of a template take its bytes one after the other, and the forest that they make keeps
their order: an element takes the bytes of its opening tag, then those of what it holds, then those
of its closing tag. A closing tag may end several elements at once, so this is kept for the
open elements and what they hold so far, not for finished nodes only.
-/

namespace IslandSlots

open Text

/-! ## Suffixes of what is read -/

namespace TemplateAttribute

theorem readValue_suffix (bytes : List UInt8) : (readValue bytes).2 <:+ bytes := by
  cases bytes with
  | nil => exact List.suffix_refl []
  | cons b rest =>
      rw [readValue]
      split
      · exact ((List.drop_suffix 1 _).trans (List.dropWhile_suffix _)).trans (List.suffix_cons b rest)
      · split
        · exact (List.dropWhile_suffix _).trans (List.suffix_cons b rest)
        · exact List.suffix_refl _

theorem readAssignment_suffix (bytes : List UInt8) : (readAssignment bytes).2 <:+ bytes := by
  rw [readAssignment]
  split
  · rename_i b rest starts
    split
    · have inside : b :: rest <:+ bytes := starts ▸ List.dropWhile_suffix _
      exact ((readValue_suffix _).trans (List.dropWhile_suffix _)).trans
        ((List.suffix_cons b rest).trans inside)
    · exact List.suffix_refl bytes
  · exact List.suffix_refl bytes

theorem suffix_of_read? {bytes rest : List UInt8} {attr : TemplateAttribute}
    (found : read? bytes = some (attr, rest)) : rest <:+ bytes := by
  simp only [read?] at found
  split at found
  · cases found
  · obtain ⟨-, rfl⟩ := Prod.mk.inj (Option.some.inj found)
    exact (readAssignment_suffix _).trans (List.dropWhile_suffix _)

end TemplateAttribute

namespace TemplatePiece

theorem cons_suffix_of_dropWhile {bytes behind : List UInt8} {b : UInt8}
    (blanks : bytes.dropWhile isBlankByte = b :: behind) : b :: behind <:+ bytes :=
  blanks ▸ List.dropWhile_suffix _

theorem cons_drop_of_head? {bytes : List UInt8} {b : UInt8} (head : bytes.head? = some b) :
    b :: bytes.drop 1 = bytes := by
  cases bytes with
  | nil => cases head
  | cons first rest => rw [Option.some.inj head]; rfl

/-- An opening tag ends in a `>`. -/
theorem suffix_of_tagRest? {bytes : List UInt8} {rest : TagRest}
    (found : tagRest? bytes = some rest) : charByte '>' :: rest.behind <:+ bytes := by
  fun_induction tagRest? bytes generalizing rest with
  | case1 => cases found
  | case2 bytes b behind blanks ends =>
      cases found
      rw [← eq_of_beq ends]
      exact cons_suffix_of_dropWhile blanks
  | case3 bytes b behind blanks =>
      rename_i spaced ends
      cases found
      have spaced_suffix : spaced <:+ behind := List.dropWhile_suffix _
      rw [cons_drop_of_head? ends]
      exact spaced_suffix.trans ((List.suffix_cons b behind).trans (cons_suffix_of_dropWhile blanks))
  | case4 bytes b behind blanks =>
      rename_i induction
      exact (induction found).trans ((List.dropWhile_suffix _).trans
        ((List.suffix_cons b behind).trans (cons_suffix_of_dropWhile blanks)))
  | case5 bytes b behind blanks _ _ attr after attribute_eq induction =>
      obtain ⟨more, more_eq, rfl⟩ := Option.map_eq_some_iff.mp found
      exact (induction more_eq).trans ((TemplateAttribute.suffix_of_read? attribute_eq).trans
        (cons_suffix_of_dropWhile blanks))
  | case6 bytes b behind blanks _ _ _ induction =>
      exact (induction found).trans
        ((List.suffix_cons b behind).trans (cons_suffix_of_dropWhile blanks))

/-! ## How pieces are spelled -/

set_option maxRecDepth 20000 in
theorem lt_of_isTagByte : ∀ b : UInt8, isTagByte b → b < 0x80 :=
  forall_byte (by decide)

/-- The name of a tag is spelled as it is written. -/
theorem bytes_spelled_takeWhile (bytes : List UInt8) :
    Text.bytes (spelled (bytes.takeWhile isTagByte)) = bytes.takeWhile isTagByte := by
  rw [spelled, Text.bytes, String.toList_ofList]
  exact encode_decode_of_ascii fun b found => lt_of_isTagByte b (List.mem_takeWhile_imp found)

/-- Some bytes are an opening tag of an element of the given name. -/
def IsOpening (tag : String) (written : List UInt8) : Prop :=
  ∃ inside, written = charByte '<' :: Text.bytes tag ++ inside ++ [charByte '>']

/-- Some bytes are a closing tag of an element of the given name. -/
def IsClosing (tag : String) (written : List UInt8) : Prop :=
  ∃ inside, written = charByte '<' :: charByte '/' :: Text.bytes tag ++ inside ++ [charByte '>']

/-- A piece is spelled by some bytes that stand at a place. -/
def Spells (place : Nat) (written : List UInt8) : TemplatePiece → Prop
  | .opening tag => tag.span = ⟨place, place + written.length⟩ ∧ IsOpening tag.tag written
  | .closing tag span => span = ⟨place, place + written.length⟩ ∧ IsClosing tag written
  | _ => written ≠ []

theorem spells_of_readOpening {offset : Nat} {bytes rest : List UInt8} {piece : TemplatePiece}
    (found : readOpening offset bytes = .ok (piece, rest)) :
    ∃ written, charByte '<' :: bytes = written ++ rest ∧ piece.Spells offset written := by
  simp only [readOpening] at found
  split at found
  · rename_i behind rest_eq
    obtain ⟨inside, inside_eq⟩ := suffix_of_tagRest? rest_eq
    cases found
    have bytes_eq : bytes =
        bytes.takeWhile isTagByte ++ inside ++ [charByte '>'] ++ behind.behind := by
      calc
        bytes = bytes.takeWhile isTagByte ++ bytes.dropWhile isTagByte :=
          List.takeWhile_append_dropWhile.symm
        _ = _ := by
          rw [← inside_eq]
          simp
    refine ⟨charByte '<' :: bytes.takeWhile isTagByte ++ inside ++ [charByte '>'], ?_, ?_, inside, ?_⟩
    · rw [List.cons_append, List.cons_append, List.cons_append, ← bytes_eq]
    · have lengths := congrArg List.length bytes_eq
      simp only [List.length_append, List.length_cons, List.length_nil] at lengths ⊢
      congr 1
      omega
    · rw [bytes_spelled_takeWhile]
  · cases found

theorem spells_of_readClosing {offset : Nat} {bytes rest : List UInt8} {piece : TemplatePiece}
    (slash : bytes.head? = some (charByte '/'))
    (found : readClosing offset (bytes.drop 1) = .ok (piece, rest)) :
    ∃ written, charByte '<' :: bytes = written ++ rest ∧ piece.Spells offset written := by
  obtain ⟨inside, rfl⟩ : ∃ inside, bytes = charByte '/' :: inside :=
    ⟨_, (cons_drop_of_head? slash).symm⟩
  rw [List.drop_one, List.tail_cons] at found
  simp only [readClosing] at found
  split at found
  · rename_i b behind starts
    split at found
    · rename_i ends
      cases found
      rw [eq_of_beq ends] at starts
      obtain ⟨blanks, blanks_eq⟩ := cons_suffix_of_dropWhile starts
      have inside_eq : inside =
          inside.takeWhile isTagByte ++ blanks ++ [charByte '>'] ++ rest := by
        calc
          inside = inside.takeWhile isTagByte ++ inside.dropWhile isTagByte :=
            List.takeWhile_append_dropWhile.symm
          _ = _ := by
            rw [← blanks_eq]
            simp
      refine ⟨charByte '<' :: charByte '/' :: inside.takeWhile isTagByte ++ blanks ++
        [charByte '>'], ?_, ?_, blanks, ?_⟩
      · rw [List.cons_append, List.cons_append, List.cons_append, List.cons_append,
          List.cons_append, List.cons_append, ← inside_eq]
      · have lengths := congrArg List.length inside_eq
        simp only [starts, List.length_append, List.length_cons, List.length_nil] at lengths ⊢
        congr 1
        omega
      · rw [bytes_spelled_takeWhile]
    · cases found
  · cases found

/-- What is read is spelled by the bytes up to the rest. -/
theorem spells_of_read {offset : Nat} {first : UInt8} {bytes rest : List UInt8}
    {piece : TemplatePiece} (found : read offset first bytes = .ok (piece, rest)) :
    ∃ written, first :: bytes = written ++ rest ∧ piece.Spells offset written := by
  have plain {rest : List UInt8} (behind : rest <:+ bytes) :
      ∃ written, first :: bytes = written ++ rest ∧ written ≠ [] := by
    obtain ⟨written, rfl⟩ := behind
    exact ⟨first :: written, rfl, List.cons_ne_nil _ _⟩
  simp only [read] at found
  split at found
  · simp only [readComment] at found
    split at found
    · rename_i body behind splits
      cases found
      exact plain ((suffix_of_splitFirst? splits).trans (List.drop_suffix 3 bytes))
    · cases found
  · split at found
    · rename_i begins
      simp only [Bool.and_eq_true, decide_eq_true_eq, beq_iff_eq] at begins
      rw [begins.1]
      exact spells_of_readClosing begins.2 found
    · split at found
      · rename_i begins
        simp only [Bool.and_eq_true, beq_iff_eq] at begins
        rw [begins.1]
        exact spells_of_readOpening found
      · split at found
        · simp only [readInterpolation] at found
          split at found
          · rename_i body behind splits
            cases found
            exact plain ((suffix_of_splitFirst? splits).trans (List.drop_suffix 1 bytes))
          · cases found
        · cases found
          exact plain (List.drop_suffix _ bytes)

/-- Pieces are spelled one after the other from a place on. -/
inductive Spelled : Nat → List UInt8 → List TemplatePiece → Prop where
  | nil (place : Nat) : Spelled place [] []
  | cons {place : Nat} {written rest : List UInt8} {piece : TemplatePiece}
      {pieces : List TemplatePiece} :
      piece.Spells place written → Spelled (place + written.length) rest pieces →
        Spelled place (written ++ rest) (piece :: pieces)

/-- The pieces of a template that is read to its end are spelled by it. -/
theorem spelled_of_all {offset : Nat} {bytes : List UInt8} {pieces : List TemplatePiece}
    (found : all offset bytes = (pieces, none)) : Spelled offset bytes pieces := by
  fun_induction all offset bytes generalizing pieces with
  | case1 offset =>
      cases found
      exact .nil offset
  | case2 offset first bytes piece rest reads =>
      rename_i error more_eq induction
      cases found
      obtain ⟨written, bytes_eq, spells⟩ := spells_of_read reads
      have taken : offset + 1 + (bytes.length - rest.length) = offset + written.length := by
        have lengths := congrArg List.length bytes_eq
        have shorter := length_of_read reads
        simp only [List.length_cons, List.length_append] at lengths
        omega
      rw [taken] at induction more_eq
      rw [bytes_eq]
      exact .cons spells (induction more_eq)
  | case3 => cases found

end TemplatePiece

/-! ## How nodes are laid out -/

/-- Some bytes stand in a file at a range of places. -/
def Span.Holds (span : Span) (file written : List UInt8) : Prop :=
  ∃ before after, file = before ++ written ++ after ∧
    span = ⟨before.length, before.length + written.length⟩

/-- An opening tag stands in a file where it says. -/
def OpeningTag.Stands (file : List UInt8) (opening : OpeningTag) : Prop :=
  ∃ written, opening.span.Holds file written ∧ TemplatePiece.IsOpening opening.tag written

theorem Span.Holds.stop_eq {span : Span} {file written : List UInt8}
    (holds : span.Holds file written) : span.stop = span.start + written.length := by
  obtain ⟨before, after, -, rfl⟩ := holds
  rfl

theorem Span.Holds.eq {span : Span} {file first second : List UInt8}
    (first_holds : span.Holds file first) (second_holds : span.Holds file second) :
    first = second := by
  obtain ⟨before, after, file_eq, rfl⟩ := first_holds
  obtain ⟨before', after', file_eq', span_eq⟩ := second_holds
  obtain ⟨start_eq, stop_eq⟩ := Span.mk.inj span_eq
  rw [file_eq] at file_eq'
  obtain ⟨front_eq, -⟩ := List.append_inj file_eq' (by simp only [List.length_append]; omega)
  exact (List.append_inj front_eq start_eq).2

theorem Span.Holds.split {span : Span} {file first second : List UInt8}
    (holds : span.Holds file (first ++ second)) :
    Span.Holds ⟨span.start, span.start + first.length⟩ file first ∧
      Span.Holds ⟨span.start + first.length, span.stop⟩ file second := by
  obtain ⟨before, after, rfl, rfl⟩ := holds
  refine ⟨⟨before, second ++ after, ?_, rfl⟩, ⟨before ++ first, after, ?_, ?_⟩⟩
  · simp only [List.append_assoc]
  · simp only [List.append_assoc]
  · simp only [List.length_append, Nat.add_assoc]

theorem Span.Holds.take {span : Span} {file written : List UInt8} {place : Nat}
    (holds : span.Holds file written) (bound : span.stop ≤ place) :
    span.Holds (file.take place) written := by
  obtain ⟨before, after, rfl, rfl⟩ := holds
  refine ⟨before, after.take (place - (before ++ written).length), ?_, rfl⟩
  rw [List.take_append, List.take_of_length_le]
  simpa only [List.length_append] using bound

/-- Something stands between an earlier place and a span. -/
theorem Span.Holds.exists_front {span : Span} {file written : List UInt8} {place : Nat}
    (holds : span.Holds file written) (lower : place ≤ span.start) :
    ∃ front, place + front.length = span.start ∧ Span.Holds ⟨place, span.start⟩ file front := by
  obtain ⟨before, after, rfl, rfl⟩ := holds
  have place_eq : (before.take place).length = place := List.length_take_of_le lower
  have length_eq : place + (before.drop place).length = before.length := by
    rw [List.length_drop, Nat.add_sub_cancel' lower]
  refine ⟨before.drop place, length_eq, before.take place, written ++ after, ?_, ?_⟩
  · rw [List.take_append_drop, List.append_assoc]
  · rw [place_eq, length_eq]

/-- An opening tag goes on behind the name of its element. -/
theorem OpeningTag.Stands.name_lt {file : List UInt8} {opening : OpeningTag}
    (stands : opening.Stands file) :
    opening.span.start + 1 + Text.byteLength opening.tag.toList < opening.span.stop := by
  obtain ⟨written, holds, inside, rfl⟩ := stands
  rw [holds.stop_eq]
  simp only [List.length_append, List.length_cons, Text.bytes, Text.length_encode]
  omega

theorem lt_of_isClosing {span : Span} {file written : List UInt8} {tag : String}
    (holds : span.Holds file written) (closes : TemplatePiece.IsClosing tag written) :
    span.start < span.stop := by
  obtain ⟨inside, rfl⟩ := closes
  rw [holds.stop_eq]
  simp

namespace TemplateNode

/-- Whether a node is no element. -/
def isLeaf : TemplateNode → Bool
  | .element .. => false
  | _ => true

theorem significant_cons (node : TemplateNode) (nodes : List TemplateNode) :
    significant (node :: nodes) =
      if node.isBlank then significant nodes else node :: significant nodes := by
  cases blank : node.isBlank <;> simp [significant, blank]

theorem mem_of_significant_eq {nodes : List TemplateNode} {only : TemplateNode}
    (found : significant nodes = [only]) : only ∈ nodes := by
  have listed : only ∈ significant nodes := by simp [found]
  exact (List.mem_filter.mp listed).1

/-- From one place of a file to another there is the closing tag of an element, if it has one. -/
inductive Closes (file : List UInt8) (tag : String) : Nat → Nat → Option Span → Prop where
  | missing (place : Nat) : Closes file tag place place none
  | closing {span : Span} {written : List UInt8} :
      span.Holds file written → TemplatePiece.IsClosing tag written →
        Closes file tag span.start span.stop (some span)

theorem Closes.le {file : List UInt8} {tag : String} {place next : Nat} {closing : Option Span}
    (closes : Closes file tag place next closing) : place ≤ next := by
  cases closes with
  | missing => exact Nat.le_refl place
  | closing holds written => exact Nat.le_of_lt (lt_of_isClosing holds written)

/-- Nodes take the bytes of a file from one place to another, one after the other. -/
inductive Laid (file : List UInt8) : Nat → Nat → List TemplateNode → Prop where
  | nil (place : Nat) : Laid file place place []
  | leaf {place next stop : Nat} {node : TemplateNode} {nodes : List TemplateNode} :
      node.isLeaf → place < next → Laid file next stop nodes →
        Laid file place stop (node :: nodes)
  | element {opening : OpeningTag} {children nodes : List TemplateNode} {closing : Option Span}
      {inner next stop : Nat} :
      opening.Stands file → (opening.selfClosing → children = [] ∧ closing = none) →
        Laid file opening.span.stop inner children →
          Closes file opening.tag inner next closing → Laid file next stop nodes →
            Laid file opening.span.start stop (.element opening children closing :: nodes)

namespace Laid

variable {file : List UInt8} {start middle stop : Nat} {first second nodes : List TemplateNode}

theorem append (front : Laid file start middle first) (back : Laid file middle stop second) :
    Laid file start stop (first ++ second) := by
  induction front with
  | nil => exact back
  | leaf plain taken _ induction => exact .leaf plain taken (induction back)
  | element stands whole inside closes _ _ induction =>
      exact .element stands whole inside closes (induction back)

theorem le (laid : Laid file start stop nodes) : start ≤ stop := by
  induction laid with
  | nil place => exact Nat.le_refl place
  | leaf _ taken _ induction => omega
  | element stands _ _ closes _ inner_induction induction =>
      have name := stands.name_lt
      have closed := closes.le
      omega

theorem lt (laid : Laid file start stop nodes) (filled : nodes ≠ []) : start < stop := by
  cases laid with
  | nil => exact absurd rfl filled
  | leaf _ taken rest =>
      have behind := rest.le
      omega
  | element stands _ inside closes rest =>
      have name := stands.name_lt
      have inner := inside.le
      have closed := closes.le
      have behind := rest.le
      omega

end Laid

end TemplateNode

namespace Nesting

open TemplateNode

/-- The roots and the open elements with what they hold take the bytes of a file from a base up to
a place. -/
inductive Upto (file : List UInt8) (base : Nat) (roots : List TemplateNode) :
    List OpenElement → Nat → Prop where
  | outside {place : Nat} : Laid file base place roots → Upto file base roots [] place
  | inside {opening : OpeningTag} {children : List TemplateNode} {outer : List OpenElement}
      {place : Nat} :
      Upto file base roots outer opening.span.start → opening.Stands file →
        opening.selfClosing = false → Laid file opening.span.stop place children →
          Upto file base roots (⟨opening, children⟩ :: outer) place

variable {file : List UInt8} {base place next stop : Nat} {roots : List TemplateNode}

/-- A node that comes next is put behind everything. -/
theorem upto_put (nesting : Nesting) {node : TemplateNode}
    (upto : Upto file base nesting.roots nesting.stack place)
    (laid : Laid file place next [node]) :
    Upto file base (nesting.put node).roots (nesting.put node).stack next := by
  obtain ⟨stack, roots⟩ := nesting
  cases upto with
  | outside before => exact .outside (before.append laid)
  | inside outer stands opened children => exact .inside outer stands opened (children.append laid)

/-- A closing tag makes the innermost element of its name whole, with what is still open in it. -/
theorem upto_closed? {tag : String} {span : Span} {stack outer : List OpenElement}
    {last : List TemplateNode} {node : TemplateNode} {written : List UInt8}
    (upto : Upto file base roots stack place) (laid : Laid file place span.start last)
    (holds : span.Holds file written) (closes : TemplatePiece.IsClosing tag written)
    (found : closed? tag span stack last = some (node, outer)) :
    ∃ start, Upto file base roots outer start ∧ Laid file start span.stop [node] := by
  induction upto generalizing last with
  | outside => cases found
  | inside outside stands opened children induction =>
      rw [closed?] at found
      have whole := children.append laid
      split at found
      · rename_i named
        cases found
        exact ⟨_, outside, .element stands (by simp [opened]) whole
          (.closing holds (named ▸ closes)) (.nil _)⟩
      · exact induction (.element stands (by simp [opened]) whole (.missing _) (.nil _)) found

/-- A piece that comes next goes behind everything. -/
theorem upto_add {nesting after : Nesting} {piece : TemplatePiece} {before written : List UInt8}
    {behind : List UInt8} (upto : Upto file base nesting.roots nesting.stack before.length)
    (file_eq : file = before ++ written ++ behind) (spells : piece.Spells before.length written)
    (step : nesting.add piece = .ok after) :
    Upto file base after.roots after.stack (before.length + written.length) := by
  have leaf {node : TemplateNode} (plain : node.isLeaf) (filled : written ≠ []) :
      Upto file base (nesting.put node).roots (nesting.put node).stack
        (before.length + written.length) := by
    have positive := List.length_pos_iff.mpr filled
    exact upto_put nesting upto (.leaf plain (by omega) (.nil _))
  cases piece with
  | opening tag =>
      obtain ⟨span_eq, opens⟩ := spells
      have stands : tag.Stands file := ⟨written, ⟨before, behind, file_eq, span_eq⟩, opens⟩
      rw [add] at step
      split at step
      · cases step
        refine upto_put nesting upto ?_
        have laid : Laid file tag.span.start tag.span.stop [.element tag [] none] :=
          .element stands (fun _ => ⟨rfl, rfl⟩) (.nil _) (.missing _) (.nil _)
        rwa [span_eq] at laid
      · rename_i opened
        cases step
        have children : Laid file tag.span.stop tag.span.stop [] := .nil _
        rw [span_eq] at children
        exact .inside (by rwa [span_eq]) stands (by simpa using opened) (by rwa [span_eq])
  | closing tag span =>
      obtain ⟨span_eq, closes⟩ := spells
      rw [add] at step
      split at step
      · rename_i node outer found
        cases step
        have here : Laid file before.length span.start [] := by
          rw [span_eq]
          exact .nil _
        obtain ⟨start, outside, whole⟩ :=
          upto_closed? upto here ⟨before, behind, file_eq, span_eq⟩ closes found
        rw [span_eq] at whole
        exact upto_put ⟨outer, nesting.roots⟩ outside whole
      · cases step
  | text content =>
      cases step
      exact leaf rfl spells
  | interpolation expression =>
      cases step
      exact leaf rfl spells
  | comment body =>
      cases step
      exact leaf rfl spells

/-- Pieces that are spelled one after the other go behind everything. -/
theorem upto_foldlM {nesting after : Nesting} {pieces : List TemplatePiece}
    {before written behind : List UInt8}
    (upto : Upto file base nesting.roots nesting.stack before.length)
    (file_eq : file = before ++ written ++ behind)
    (spelled : TemplatePiece.Spelled before.length written pieces)
    (steps : pieces.foldlM add nesting = .ok after) :
    Upto file base after.roots after.stack (before.length + written.length) := by
  generalize place_eq : before.length = place at spelled upto
  induction spelled generalizing nesting before with
  | nil place =>
      cases steps
      simpa using upto
  | @cons place first rest piece pieces spells _ induction =>
      subst place_eq
      rw [List.foldlM_cons] at steps
      obtain ⟨next, step, steps⟩ := bind_eq_ok.mp steps
      have file_split : file = before ++ first ++ (rest ++ behind) := by simpa using file_eq
      have added := upto_add upto file_split spells step
      have further := @induction next (before ++ first) (by simpa using file_eq) steps (by simp)
        added
      simpa [Nat.add_assoc] using further

end Nesting

namespace TemplateNode

/-- The forest of a template is laid out over its bytes, but for blank texts between its trees. -/
theorem laid_of_forest {file before behind : List UInt8} {template : String}
    {nodes : List TemplateNode} (file_eq : file = before ++ Text.bytes template ++ behind)
    (found : forest before.length template = .ok nodes) :
    ∃ roots, Laid file before.length (before.length + (Text.bytes template).length) roots ∧
      nodes = significant roots := by
  rw [forest] at found
  obtain ⟨nesting, folded, finished⟩ := bind_eq_ok.mp found
  generalize all_eq : TemplatePiece.all before.length (Text.bytes template) = pieces
    at folded finished
  obtain ⟨pieces, fault⟩ := pieces
  cases fault with
  | some error => cases finished
  | none =>
      have upto := Nesting.upto_foldlM (Nesting.Upto.outside (.nil before.length)) file_eq
        (TemplatePiece.spelled_of_all all_eq) folded
      obtain ⟨stack, roots⟩ := nesting
      rw [Nesting.finish] at finished
      cases upto with
      | outside laid =>
          cases finished
          exact ⟨roots, laid, rfl⟩
      | inside => cases finished

end TemplateNode

end IslandSlots
