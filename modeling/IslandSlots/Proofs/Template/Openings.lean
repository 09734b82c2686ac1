import IslandSlots.Proofs.Template.Quoted
import IslandSlots.Proofs.Template.Spans

/-!
# Opening tags by themselves

What an opening tag is read as depends on its own bytes only: nothing behind the `>` at its end is
looked at, not even for the value of its last attribute. So the tag of every element of a forest is
read in the same way wherever its bytes stand.
-/

namespace IslandSlots

open Text

/-! ## Reading up to the end of a tag -/

/-- Some bytes end in the bracket that ends a tag. -/
def EndsTag (part : List UInt8) : Prop :=
  part.getLast? = some (charByte '>')

namespace EndsTag

variable {part suffix : List UInt8} {p : UInt8 → Bool}

theorem ne_nil (ends : EndsTag part) : part ≠ [] := by
  rintro rfl
  cases ends

theorem of_suffix (ends : EndsTag part) (behind : suffix <:+ part) (filled : suffix ≠ []) :
    EndsTag suffix := by
  obtain ⟨front, rfl⟩ := behind
  rw [EndsTag, List.getLast?_append, List.getLast?_eq_some_getLast filled, Option.some_or] at ends
  rw [EndsTag, List.getLast?_eq_some_getLast filled, ends]

theorem tail {b : UInt8} (ends : EndsTag (b :: part)) (other : b ≠ charByte '>') : EndsTag part := by
  refine ends.of_suffix (List.suffix_cons b part) ?_
  rintro rfl
  exact other (Option.some.inj ends)

/-- Passing over bytes other than the bracket stays inside the tag. -/
theorem dropWhile (ends : EndsTag part) (other : p (charByte '>') = false) :
    EndsTag (part.dropWhile p) := by
  refine ends.of_suffix (List.dropWhile_suffix p) fun passed => ?_
  have all := List.dropWhile_eq_nil_iff.mp passed (charByte '>') (List.mem_of_getLast? ends)
  rw [other] at all
  cases all

theorem dropWhile_append (ends : EndsTag part) (other : p (charByte '>') = false)
    (behind : List UInt8) : (part ++ behind).dropWhile p = part.dropWhile p ++ behind := by
  have filled := (ends.dropWhile other).ne_nil
  rw [List.dropWhile_append, if_neg (by simpa using filled)]

theorem takeWhile_append (ends : EndsTag part) (other : p (charByte '>') = false)
    (behind : List UInt8) : (part ++ behind).takeWhile p = part.takeWhile p := by
  have shorter : (part.takeWhile p).length ≠ part.length := by
    have parts := congrArg List.length (List.takeWhile_append_dropWhile (p := p) (l := part))
    have positive := List.length_pos_iff.mpr (ends.dropWhile other).ne_nil
    rw [List.length_append] at parts
    omega
  rw [List.takeWhile_append, if_neg shorter]

end EndsTag

namespace TemplateAttribute

variable {part behind rest : List UInt8}

/-- A value that ends inside a tag is read there whatever is behind the tag. -/
theorem readValue_local {value : Option (List UInt8)} (ends : EndsTag part)
    (found : readValue (part ++ behind) = (value, rest)) (inside : behind.length < rest.length) :
    ∃ more, rest = more ++ behind ∧ EndsTag more ∧
      ∀ other, readValue (part ++ other) = (value, more ++ other) := by
  cases part with
  | nil => exact absurd rfl ends.ne_nil
  | cons b part =>
      rw [List.cons_append, readValue] at found
      split at found
      · rename_i quote
        obtain ⟨value_eq, rest_eq⟩ := Prod.mk.inj found
        have ends_part : EndsTag part := ends.tail (by rintro rfl; revert quote; decide)
        cases closing : part.dropWhile (· != b) with
        | nil =>
            -- The value goes on behind the tag.
            rw [List.dropWhile_append, closing, if_pos List.isEmpty_nil] at rest_eq
            have shorter := (List.dropWhile_sublist (· != b) (l := behind)).length_le
            rw [← rest_eq, List.length_drop] at inside
            omega
        | cons c more =>
            have closed : (part.takeWhile (· != b)).length ≠ part.length := by
              have parts := congrArg List.length
                (List.takeWhile_append_dropWhile (p := (· != b)) (l := part))
              rw [List.length_append, closing, List.length_cons] at parts
              omega
            have read (other : List UInt8) : (part ++ other).takeWhile (· != b) =
                part.takeWhile (· != b) ∧
                  ((part ++ other).dropWhile (· != b)).drop 1 = more ++ other := by
              rw [List.takeWhile_append, if_neg closed, List.dropWhile_append, closing,
                if_neg (by simp)]
              exact ⟨rfl, rfl⟩
            rw [(read behind).2] at rest_eq
            rw [(read behind).1] at value_eq
            subst rest_eq
            refine ⟨more, rfl, ?_, fun other => by
              rw [List.cons_append, readValue, if_pos quote, (read other).1, (read other).2,
                value_eq]⟩
            refine ends_part.of_suffix ((List.suffix_cons c more).trans ?_) ?_
            · exact closing ▸ List.dropWhile_suffix _
            · rintro rfl
              simp at inside
      · rename_i unquoted
        split at found
        · rename_i bare
          have other : b ≠ charByte '>' := by
            rintro rfl
            revert bare
            decide
          have ends_part := ends.tail other
          obtain ⟨rfl, rfl⟩ := Prod.mk.inj found
          refine ⟨part.dropWhile isValueByte, ends_part.dropWhile_append rfl behind,
            ends_part.dropWhile rfl, fun other => ?_⟩
          rw [List.cons_append, readValue, if_neg unquoted, if_pos bare,
            ends_part.takeWhile_append rfl, ends_part.takeWhile_append rfl,
            ends_part.dropWhile_append rfl]
        · rename_i nothing
          obtain ⟨rfl, rfl⟩ := Prod.mk.inj found
          refine ⟨b :: part, rfl, ends, fun other => ?_⟩
          rw [List.cons_append, readValue, if_neg unquoted, if_neg nothing]

theorem readAssignment_local {value : Option (List UInt8)} (ends : EndsTag part)
    (found : readAssignment (part ++ behind) = (value, rest))
    (inside : behind.length < rest.length) :
    ∃ more, rest = more ++ behind ∧ EndsTag more ∧
      ∀ other, readAssignment (part ++ other) = (value, more ++ other) := by
  have solid : isBlankByte (charByte '>') = false := rfl
  have blanks := ends.dropWhile_append solid
  have ends_solid := ends.dropWhile solid
  rw [readAssignment, blanks] at found
  cases starts : part.dropWhile isBlankByte with
  | nil => exact absurd starts ends_solid.ne_nil
  | cons b more =>
      rw [starts] at ends_solid
      simp only [starts, List.cons_append] at found
      split at found
      · rename_i equals
        have ends_more : EndsTag more := ends_solid.tail (by rintro rfl; revert equals; decide)
        rw [ends_more.dropWhile_append solid] at found
        obtain ⟨left, rest_eq, ends_left, read⟩ :=
          readValue_local (ends_more.dropWhile solid) found inside
        refine ⟨left, rest_eq, ends_left, fun other => ?_⟩
        rw [readAssignment, blanks, starts]
        simp only [List.cons_append, if_pos equals]
        rw [ends_more.dropWhile_append solid, read other]
      · rename_i different
        obtain ⟨rfl, rfl⟩ := Prod.mk.inj found
        refine ⟨part, rfl, ends, fun other => ?_⟩
        rw [readAssignment, blanks, starts]
        simp only [List.cons_append, if_neg different]

/-- An attribute inside a tag is read there whatever is behind the tag. -/
theorem read?_local {attr : TemplateAttribute} (ends : EndsTag part)
    (found : read? (part ++ behind) = some (attr, rest)) (inside : behind.length < rest.length) :
    ∃ more, rest = more ++ behind ∧ EndsTag more ∧
      ∀ other, read? (part ++ other) = some (attr, more ++ other) := by
  have nameless : isNameByte (charByte '>') = false := rfl
  simp only [read?, ends.takeWhile_append nameless, ends.dropWhile_append nameless] at found
  split at found
  · cases found
  · rename_i named
    generalize assigned : readAssignment (part.dropWhile isNameByte ++ behind) = result at found
    obtain ⟨value, left⟩ := result
    obtain ⟨rfl, rfl⟩ := Prod.mk.inj (Option.some.inj found)
    obtain ⟨more, rest_eq, ends_more, read⟩ :=
      readAssignment_local (ends.dropWhile nameless) assigned inside
    refine ⟨more, rest_eq, ends_more, fun other => ?_⟩
    simp only [read?, ends.takeWhile_append nameless, ends.dropWhile_append nameless, named,
      read other]
    rfl

theorem read?_eq_none_iff {b : UInt8} : read? (b :: rest) = none ↔ isNameByte b = false := by
  cases named : isNameByte b <;> simp [read?, named]

end TemplateAttribute

namespace TemplatePiece

/-- The first byte of a tag that is no blank is inside the tag. -/
theorem exists_dropWhile_eq {part behind rest : List UInt8} {b : UInt8} (ends : EndsTag part)
    (starts : (part ++ behind).dropWhile isBlankByte = b :: rest) :
    ∃ more, rest = more ++ behind ∧ EndsTag (b :: more) ∧
      ∀ other, (part ++ other).dropWhile isBlankByte = b :: (more ++ other) := by
  have solid : isBlankByte (charByte '>') = false := rfl
  have ends_solid := ends.dropWhile solid
  rw [ends.dropWhile_append solid] at starts
  cases front_eq : part.dropWhile isBlankByte with
  | nil => exact absurd front_eq ends_solid.ne_nil
  | cons first more =>
      rw [front_eq] at starts ends_solid
      obtain ⟨rfl, rfl⟩ := List.cons.inj starts
      exact ⟨more, rfl, ends_solid, fun other => by
        rw [ends.dropWhile_append solid, front_eq, List.cons_append]⟩

/-- A tag is read up to its end whatever is behind it. -/
theorem tagRest?_local {part behind : List UInt8} {attributes : List TemplateAttribute}
    {slash : Bool} (ends : EndsTag part)
    (found : tagRest? (part ++ behind) = some ⟨attributes, slash, behind⟩) (other : List UInt8) :
    tagRest? (part ++ other) = some ⟨attributes, slash, other⟩ := by
  have solid : isBlankByte (charByte '>') = false := rfl
  generalize bytes_eq : part ++ behind = bytes at found
  fun_induction tagRest? bytes generalizing part attributes with
  | case1 => cases found
  | case2 bytes b rest blanks closes =>
      cases found
      subst bytes_eq
      obtain ⟨more, rest_eq, -, starts⟩ := exists_dropWhile_eq ends blanks
      obtain rfl : more = [] := by simpa using rest_eq
      rw [tagRest?_of_dropWhile (starts other), if_pos closes]
      rfl
  | case3 bytes b rest blanks opened slashed spaced =>
      rename_i closes
      simp only [Option.some.injEq, TagRest.mk.injEq] at found
      obtain ⟨rfl, rfl, behind_eq⟩ := found
      subst bytes_eq
      obtain ⟨more, rest_eq, ends_more, starts⟩ := exists_dropWhile_eq ends blanks
      have ends_spaced := ends_more.tail (by simpa using opened)
      have spaced_eq : spaced = more.dropWhile isBlankByte ++ behind := by
        rw [← ends_spaced.dropWhile_append solid, ← rest_eq]
      have closed : charByte '>' :: behind = more.dropWhile isBlankByte ++ behind := by
        rw [← spaced_eq, ← cons_drop_of_head? closes, behind_eq]
      obtain front_eq : more.dropWhile isBlankByte = [charByte '>'] :=
        ((List.append_left_inj behind).mp closed).symm
      rw [tagRest?_of_dropWhile (starts other), if_neg opened, if_pos slashed,
        ends_spaced.dropWhile_append solid, front_eq]
      rfl
  | case4 bytes b rest blanks opened slashed spaced goes_on =>
      rename_i induction
      subst bytes_eq
      obtain ⟨more, rest_eq, ends_more, starts⟩ := exists_dropWhile_eq ends blanks
      have ends_more := ends_more.tail (by simpa using opened)
      have ends_spaced := ends_more.dropWhile solid
      have spaced_eq : more.dropWhile isBlankByte ++ behind = spaced := by
        rw [← ends_more.dropWhile_append solid, ← rest_eq]
      have head_eq : (more.dropWhile isBlankByte ++ other).head? = spaced.head? := by
        rw [← spaced_eq, List.head?_append, List.head?_append,
          List.head?_eq_some_head ends_spaced.ne_nil, Option.some_or, Option.some_or]
      rw [tagRest?_of_dropWhile (starts other), if_neg opened, if_pos slashed,
        ends_more.dropWhile_append solid, head_eq, if_neg goes_on]
      exact induction ends_spaced spaced_eq found
  | case5 bytes b rest blanks opened bare attr after read_eq induction =>
      subst bytes_eq
      obtain ⟨more, rfl, ends_more, starts⟩ := exists_dropWhile_eq ends blanks
      obtain ⟨tail, tail_eq, same⟩ := Option.map_eq_some_iff.mp found
      cases same
      have inside := (suffix_of_tagRest? tail_eq).length_le
      obtain ⟨left, rfl, ends_left, read⟩ :=
        TemplateAttribute.read?_local ends_more read_eq inside
      have rest_read := induction ends_left rfl tail_eq
      rw [tagRest?_of_dropWhile (starts other), if_neg opened, if_neg bare, ← List.cons_append,
        read other]
      simp only [rest_read, Option.map_some]
  | case6 bytes b rest blanks opened bare none_eq induction =>
      subst bytes_eq
      obtain ⟨more, rfl, ends_more, starts⟩ := exists_dropWhile_eq ends blanks
      have nameless := TemplateAttribute.read?_eq_none_iff.mp none_eq
      rw [tagRest?_of_dropWhile (starts other), if_neg opened, if_neg bare,
        TemplateAttribute.read?_eq_none_iff.mpr nameless]
      exact induction (ends_more.tail (by simpa using opened)) rfl found

end TemplatePiece

/-! ## Opening tags of a template -/

open TemplatePiece

/-- Bytes behind a name make up an opening tag with it, wherever the tag stands. -/
structure OpeningTag.IsSpelled (opening : OpeningTag) (inside : List UInt8) : Prop where
  /-- The name begins with a letter. -/
  begins : (bytes opening.tag).head?.any isLetter
  /-- The name can be read. -/
  named : ∀ b ∈ bytes opening.tag, isTagByte b
  /-- The name ends before them. -/
  nameless : ∀ behind, (inside ++ behind).takeWhile isTagByte = []
  /-- They are read as the attributes and the end of the tag. -/
  rest : ∃ slash, opening.selfClosing = (slash || isVoid opening.tag) ∧
    ∀ behind, tagRest? (inside ++ behind) = some ⟨opening.attributes, slash, behind⟩

namespace TemplatePiece

theorem takeWhile_isTagByte_of_endsTag {inside behind : List UInt8} (ends : EndsTag inside)
    (nameless : (inside ++ behind).takeWhile isTagByte = []) (other : List UInt8) :
    (inside ++ other).takeWhile isTagByte = [] := by
  rw [ends.takeWhile_append rfl] at nameless ⊢
  exact nameless

/-- What is read as an opening tag makes one up wherever it stands. -/
theorem isSpelled_of_readOpening {offset : Nat} {bytes rest : List UInt8} {tag : OpeningTag}
    (letter : bytes.head?.any isLetter)
    (found : readOpening offset bytes = .ok (.opening tag, rest)) :
    ∃ inside, bytes = Text.bytes tag.tag ++ inside ++ rest ∧ tag.IsSpelled inside ∧
      tag.span = ⟨offset, offset + (charByte '<' :: Text.bytes tag.tag ++ inside).length⟩ := by
  simp only [readOpening] at found
  split at found
  · rename_i more more_eq
    obtain ⟨attributes, slash, behind⟩ := more
    cases found
    obtain ⟨front, front_eq⟩ := suffix_of_tagRest? more_eq
    have inside_eq : bytes.dropWhile isTagByte = (front ++ [charByte '>']) ++ behind := by
      rw [← front_eq, List.append_assoc, List.singleton_append]
    have ends : EndsTag (front ++ [charByte '>']) := List.getLast?_concat
    have nameless : (front ++ [charByte '>'] ++ behind).takeWhile isTagByte = [] := by
      rw [← inside_eq]
      refine List.takeWhile_eq_nil_iff.mpr fun filled => ?_
      have not_named := List.head_dropWhile_not isTagByte (List.ne_nil_of_length_pos filled)
      simpa [List.head_eq_getElem] using not_named
    have bytes_eq : bytes = bytes.takeWhile isTagByte ++ (front ++ [charByte '>']) ++ behind := by
      rw [List.append_assoc, ← inside_eq, List.takeWhile_append_dropWhile]
    rw [inside_eq] at more_eq
    refine ⟨front ++ [charByte '>'], ?_, ⟨?_, ?_, takeWhile_isTagByte_of_endsTag ends nameless,
      slash, rfl, tagRest?_local ends more_eq⟩, ?_⟩
    · rw [bytes_spelled_takeWhile, ← bytes_eq]
    · rw [bytes_spelled_takeWhile]
      cases bytes with
      | nil => cases letter
      | cons b bytes =>
          have named : isTagByte b := by
            have alpha : (byteChar b).isAlpha := letter
            simp [isTagByte, Char.isAlphanum, alpha]
          rw [List.takeWhile_cons_of_pos named]
          exact letter
    · rw [bytes_spelled_takeWhile]
      exact fun b => List.mem_takeWhile_imp
    · have lengths := congrArg List.length bytes_eq
      rw [bytes_spelled_takeWhile]
      simp only [List.length_append, List.length_cons] at lengths ⊢
      congr 1
      omega
  · cases found

/-- Where an opening tag is read, the bytes make it up. -/
theorem isSpelled_of_read {offset : Nat} {first : UInt8} {inside rest : List UInt8}
    {tag : OpeningTag} (found : read offset first inside = .ok (.opening tag, rest)) :
    ∃ more, first :: inside = charByte '<' :: Text.bytes tag.tag ++ more ++ rest ∧
      tag.IsSpelled more ∧
        tag.span = ⟨offset, offset + (charByte '<' :: Text.bytes tag.tag ++ more).length⟩ := by
  rw [read] at found
  split at found
  · simp only [readComment] at found
    split at found <;> cases found
  · split at found
    · simp only [readClosing] at found
      split at found
      · split at found <;> cases found
      · cases found
    · split at found
      · rename_i begins
        simp only [Bool.and_eq_true, beq_iff_eq] at begins
        obtain ⟨more, inside_eq, spelled, span_eq⟩ := isSpelled_of_readOpening begins.2 found
        refine ⟨more, ?_, spelled, span_eq⟩
        rw [begins.1, List.cons_append, List.cons_append, ← inside_eq]
      · split at found
        · simp only [readInterpolation] at found
          split at found <;> cases found
        · cases found

/-- The opening tags among the pieces of some bytes stand there as they say. -/
theorem opening_of_mem_all {offset : Nat} {bytes : List UInt8} {tag : OpeningTag}
    (member : .opening tag ∈ (all offset bytes).1) :
    ∃ before inside after, bytes = before ++ (charByte '<' :: Text.bytes tag.tag ++ inside) ++ after ∧
      tag.IsSpelled inside ∧ tag.span = ⟨offset + before.length,
        offset + before.length + (charByte '<' :: Text.bytes tag.tag ++ inside).length⟩ := by
  fun_induction all offset bytes with
  | case1 => cases member
  | case2 offset first bytes piece rest reads =>
      rename_i more_eq induction
      rcases List.mem_cons.mp member with rfl | later
      · obtain ⟨inside, bytes_eq, spelled, span_eq⟩ := isSpelled_of_read reads
        exact ⟨[], inside, rest, bytes_eq, spelled, span_eq⟩
      · rw [more_eq] at induction
        obtain ⟨before, inside, after, rest_eq, spelled, span_eq⟩ := induction later
        obtain ⟨written, bytes_eq, -⟩ := spells_of_read reads
        have taken : offset + 1 + (bytes.length - rest.length) = offset + written.length := by
          have lengths := congrArg List.length bytes_eq
          have shorter := length_of_read reads
          simp only [List.length_cons, List.length_append] at lengths
          omega
        refine ⟨written ++ before, inside, after, ?_, spelled, ?_⟩
        · rw [bytes_eq, rest_eq]
          simp only [List.append_assoc]
        · simp only [span_eq, taken, List.length_append, Nat.add_assoc]
  | case3 => cases member

end TemplatePiece

namespace TemplateNode

/-- The opening tag of every element of a forest is among some pieces. -/
def OpenedBy (pieces : List TemplatePiece) (forest : List TemplateNode) : Prop :=
  ∀ ancestors opening children closing, Occurs forest ancestors (.element opening children closing) →
    .opening opening ∈ pieces

section OpenedBy

variable {pieces : List TemplatePiece} {first second children : List TemplateNode}

theorem OpenedBy.append (front : OpenedBy pieces first) (back : OpenedBy pieces second) :
    OpenedBy pieces (first ++ second) :=
  fun ancestors opening children closing occurs => (occurs_append.mp occurs).elim
    (front ancestors opening children closing) (back ancestors opening children closing)

theorem openedBy_nil : OpenedBy pieces [] :=
  fun _ _ _ _ occurs => absurd occurs not_occurs_nil

theorem openedBy_leaf {leaf : TemplateNode} (plain : leaf.isLeaf) : OpenedBy pieces [leaf] := by
  intro ancestors opening children closing occurs
  have same := eq_of_occurs_leaf plain occurs
  subst same
  cases plain

theorem openedBy_element {opening : OpeningTag} (member : .opening opening ∈ pieces)
    (inside : OpenedBy pieces children) (closing : Option Span) :
    OpenedBy pieces [.element opening children closing] := by
  intro ancestors inner_opening inner_children inner_closing occurs
  rcases occurs_element occurs with ⟨-, same⟩ | ⟨inner, held, -⟩
  · cases same
    exact member
  · exact inside inner inner_opening inner_children inner_closing held

end OpenedBy

end TemplateNode

namespace Nesting

open TemplateNode

/-- The opening tags of all that is read are among some pieces. -/
structure OpenedBy (pieces : List TemplatePiece) (nesting : Nesting) : Prop where
  /-- Those outside of all open elements. -/
  roots : TemplateNode.OpenedBy pieces nesting.roots
  /-- Those of the open elements and inside them. -/
  stack : ∀ inner ∈ nesting.stack, .opening inner.opening ∈ pieces ∧
    TemplateNode.OpenedBy pieces inner.children

variable {pieces : List TemplatePiece} {nesting after : Nesting}

theorem OpenedBy.put (opened : nesting.OpenedBy pieces) {node : TemplateNode}
    (alone : TemplateNode.OpenedBy pieces [node]) : (nesting.put node).OpenedBy pieces := by
  obtain ⟨stack, roots⟩ := nesting
  cases stack with
  | nil => exact ⟨opened.roots.append alone, List.forall_mem_nil _⟩
  | cons inner stack =>
      obtain ⟨here, outside⟩ := List.forall_mem_cons.mp opened.stack
      exact ⟨opened.roots, List.forall_mem_cons.mpr ⟨⟨here.1, here.2.append alone⟩, outside⟩⟩

theorem openedBy_closed? {tag : String} {span : Span} {stack outer : List OpenElement}
    {last : List TemplateNode} {node : TemplateNode}
    (opened : ∀ inner ∈ stack, .opening inner.opening ∈ pieces ∧
      TemplateNode.OpenedBy pieces inner.children)
    (inside : TemplateNode.OpenedBy pieces last)
    (found : closed? tag span stack last = some (node, outer)) :
    TemplateNode.OpenedBy pieces [node] ∧ ∀ inner ∈ outer, .opening inner.opening ∈ pieces ∧
      TemplateNode.OpenedBy pieces inner.children := by
  induction stack generalizing last with
  | nil => cases found
  | cons inner stack induction =>
      obtain ⟨here, outside⟩ := List.forall_mem_cons.mp opened
      have whole := here.2.append inside
      rw [closed?] at found
      split at found
      · cases found
        exact ⟨openedBy_element here.1 whole (some span), outside⟩
      · exact induction outside (openedBy_element here.1 whole none) found

theorem OpenedBy.add (opened : nesting.OpenedBy pieces) {piece : TemplatePiece}
    (member : piece ∈ pieces) (step : nesting.add piece = .ok after) : after.OpenedBy pieces := by
  cases piece with
  | opening tag =>
      rw [Nesting.add] at step
      split at step
      · cases step
        exact opened.put (openedBy_element member openedBy_nil none)
      · cases step
        exact ⟨opened.roots, List.forall_mem_cons.mpr ⟨⟨member, openedBy_nil⟩, opened.stack⟩⟩
  | closing tag span =>
      rw [Nesting.add] at step
      split at step
      · rename_i node outer found
        cases step
        obtain ⟨alone, outside⟩ := openedBy_closed? opened.stack openedBy_nil found
        have around : OpenedBy pieces ⟨outer, nesting.roots⟩ := ⟨opened.roots, outside⟩
        exact around.put alone
      · cases step
  | _ =>
      cases step
      exact opened.put (openedBy_leaf rfl)

theorem OpenedBy.foldlM (opened : nesting.OpenedBy pieces) {steps : List TemplatePiece}
    (members : steps ⊆ pieces) (taken : steps.foldlM Nesting.add nesting = .ok after) :
    after.OpenedBy pieces := by
  induction steps generalizing nesting with
  | nil =>
      cases taken
      exact opened
  | cons piece steps induction =>
      rw [List.foldlM_cons] at taken
      obtain ⟨next, step, taken⟩ := bind_eq_ok.mp taken
      obtain ⟨member, members⟩ := List.cons_subset.mp members
      exact induction (opened.add member step) members taken

end Nesting

namespace TemplateNode

/-- The opening tag of an element of a forest is one of its template. -/
theorem opening_mem_all {base : Nat} {template : String} {nodes ancestors children : List TemplateNode}
    {opening : OpeningTag} {closing : Option Span} (found : forest base template = .ok nodes)
    (occurs : Occurs nodes ancestors (.element opening children closing)) :
    .opening opening ∈ (TemplatePiece.all base (bytes template)).1 := by
  rw [forest] at found
  obtain ⟨nesting, folded, finished⟩ := bind_eq_ok.mp found
  have nothing : Nesting.empty.OpenedBy (TemplatePiece.all base (bytes template)).1 :=
    ⟨openedBy_nil, List.forall_mem_nil _⟩
  have opened := nothing.foldlM (List.Subset.refl _) folded
  split at finished
  · cases finished
  · rw [Nesting.finish] at finished
    split at finished
    · cases finished
      exact opened.roots ancestors opening children closing
        (occurs.mono fun _ member => (List.mem_filter.mp member).1)
    · cases finished

/-- The opening tag of an element of a forest stands in the file, made up of its name and of bytes
that say what follows the name wherever they stand. -/
theorem exists_isSpelled {file before behind : List UInt8} {template : String}
    {nodes ancestors children : List TemplateNode} {opening : OpeningTag} {closing : Option Span}
    (file_eq : file = before ++ bytes template ++ behind)
    (found : forest before.length template = .ok nodes)
    (occurs : Occurs nodes ancestors (.element opening children closing)) :
    ∃ inside, opening.IsSpelled inside ∧
      opening.span.Holds file (charByte '<' :: bytes opening.tag ++ inside) := by
  obtain ⟨front, inside, back, bytes_eq, spelled, span_eq⟩ :=
    TemplatePiece.opening_of_mem_all (opening_mem_all found occurs)
  refine ⟨inside, spelled, before ++ front, back ++ behind, ?_, ?_⟩
  · rw [file_eq, bytes_eq]
    simp only [List.append_assoc]
  · simp only [span_eq, List.length_append]

end TemplateNode

end IslandSlots
