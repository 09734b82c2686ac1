import IslandSlots.Proofs.Template.Printing
import IslandSlots.Proofs.Template.Quoted
import IslandSlots.Proofs.Text.Search
import IslandSlots.Proofs.Text.Trim

/-!
# Reading printed templates

A forest in canonical form is read back from its template. What follows a node is never read with
it: a tag ends at its `>`, a comment and an interpolation at the first mark that ends them, and a
text at the tag, comment or interpolation that comes next. So each piece is what was printed, and
the closing tags put the pieces together as they were.
-/

namespace IslandSlots

open Text

/-! ## Attributes -/

namespace TemplateAttribute

/-- The kind and the name of an attribute are told from its name with the mark. -/
theorem classify_marked {kind : AttributeKind} {name : List Char} (kept : kind.Keeps name) :
    classify (kind.mark.toList ++ name) = (kind, name) := by
  cases kind with
  | plain =>
      obtain ⟨-, no_colon, no_at, no_hash, no_dash⟩ := kept
      have no_mark {rest : List Char} : after? ('v' :: '-' :: rest) name = none := by
        refine if_neg fun found => no_dash ?_
        exact (List.prefix_append ['v', '-'] rest).trans (List.isPrefixOf_iff_prefix.mp found)
      change classify name = _
      rw [classify, bindMark, onMark, no_mark, no_mark]
      -- None of the marks of the other kinds is at the front.
      · rintro rest rfl
        exact no_colon rfl
      · rintro rest rfl
        exact no_at rfl
      · rintro rest rfl
        exact no_hash rfl
      · rintro rest rfl
        exact no_dash (List.prefix_append ['v', '-'] rest)
  | bind => rfl
  | on => rfl
  | directive =>
      obtain ⟨normal, no_bind, no_on⟩ := kept
      have bind_none : after? bindMark ('v' :: '-' :: name) = none :=
        if_neg fun found => no_bind (List.isPrefixOf_iff_prefix.mp found)
      have on_none : after? onMark ('v' :: '-' :: name) = none :=
        if_neg fun found => no_on (List.isPrefixOf_iff_prefix.mp found)
      change classify ('v' :: '-' :: name) = _
      rw [classify, bind_none, on_none]
      exact congrArg (AttributeKind.directive, ·) normal

variable {attr : TemplateAttribute}

theorem Canonical.isNamed (canonical : attr.Canonical) (value : String) :
    QuotedAttribute.isNamed ⟨attr.marked, value⟩ := by
  have mark_named : ∀ b ∈ bytes attr.kind.mark, isNameByte b := by
    cases attr.kind <;> exact List.all_eq_true.mp rfl
  have filled : bytes attr.marked ≠ [] := by
    obtain ⟨kind, name, value⟩ := attr
    cases kind with
    | plain =>
        intro empty
        have name_eq : name.toList = [] := by
          rw [← decode_encode name.toList]
          exact congrArg decode empty
        exact canonical.kept.1 name_eq
    | _ => exact fun empty => by simp [marked, AttributeKind.mark, bytes, encode] at empty
  simp only [QuotedAttribute.isNamed, Bool.and_eq_true, Bool.not_eq_true', List.all_eq_true]
  refine ⟨by simpa using filled, ?_⟩
  rw [marked, bytes_append]
  exact List.forall_mem_append.mpr ⟨mark_named, canonical.named⟩

theorem classify_of_canonical (canonical : attr.Canonical) :
    classify attr.marked.toList = (attr.kind, attr.name.toList) := by
  rw [marked, String.toList_append]
  exact classify_marked canonical.kept

/-- A name is followed by no value if no equals sign comes next. -/
theorem read?_bare {name : String} {rest : List UInt8} (named : QuotedAttribute.isNamed ⟨name, ""⟩)
    (ends : rest.takeWhile isNameByte = [])
    (valueless : (rest.dropWhile isBlankByte).head? ≠ some (charByte '=')) :
    read? (bytes name ++ rest) = some (ofWritten (bytes name) none, rest) := by
  simp only [QuotedAttribute.isNamed, Bool.and_eq_true, Bool.not_eq_true', List.all_eq_true] at named
  obtain ⟨filled, name_bytes⟩ := named
  have behind_name : rest.dropWhile isNameByte = rest := by
    conv_rhs => rw [← List.takeWhile_append_dropWhile (p := isNameByte) (l := rest), ends]
    rfl
  have no_value : readAssignment rest = (none, rest) := by
    rw [readAssignment]
    split
    · rename_i b more starts
      rw [starts] at valueless
      exact if_neg fun equals => valueless (congrArg some (eq_of_beq equals))
    · rfl
  simp only [read?, List.takeWhile_append_of_pos name_bytes, ends, List.append_nil, filled,
    List.dropWhile_append_of_pos name_bytes, behind_name, no_value]
  rfl

end TemplateAttribute

/-! ## Tags -/

namespace TemplatePiece

set_option maxRecDepth 20000 in
theorem ne_equals_of_isNameByte : ∀ b : UInt8, TemplateAttribute.isNameByte b →
    b ≠ charByte '=' :=
  forall_byte (by decide)

section Attributes

variable {attr : TemplateAttribute} {attributes : List TemplateAttribute}

theorem bytes_printAll (attr : TemplateAttribute) (attributes : List TemplateAttribute) :
    bytes (TemplateAttribute.printAll (attr :: attributes)) =
      charByte ' ' :: (bytes attr.marked ++
        (bytes (attr.value.elim "" fun value => "=\"" ++ value ++ "\"") ++
          bytes (TemplateAttribute.printAll attributes))) := by
  simp only [TemplateAttribute.printAll, bytes_append, List.append_assoc]
  rfl

/-- What comes next in a tag, after a name that ends there. -/
structure EndsName (rest : List UInt8) : Prop where
  /-- The name of an element ends. -/
  tagName : rest.takeWhile isTagByte = []
  /-- The name of an attribute ends. -/
  attributeName : rest.takeWhile TemplateAttribute.isNameByte = []
  /-- No value follows. -/
  valueless : (rest.dropWhile isBlankByte).head? ≠ some (charByte '=')

/-- Neither further attributes nor the end of a tag go on with a name. -/
theorem endsName_printAll (canonical : ∀ attr ∈ attributes, attr.Canonical) (selfClosing : Bool)
    (behind : List UInt8) :
    EndsName (bytes (TemplateAttribute.printAll attributes) ++
      (bytes (if selfClosing then "/>" else ">") ++ behind)) := by
  cases attributes with
  | nil =>
      have solid {b : UInt8} (other : b ≠ charByte '=') : (some b : Option UInt8) ≠ some (charByte '=') :=
        fun same => other (Option.some.inj same)
      cases selfClosing
      · exact ⟨rfl, rfl, solid (b := charByte '>') (by decide)⟩
      · exact ⟨rfl, rfl, solid (b := charByte '/') (by decide)⟩
  | cons attr attributes =>
      rw [bytes_printAll]
      refine ⟨rfl, rfl, ?_⟩
      have named := (canonical attr List.mem_cons_self).isNamed ""
      simp only [QuotedAttribute.isNamed, Bool.and_eq_true, Bool.not_eq_true',
        List.all_eq_true] at named
      obtain ⟨filled, name_bytes⟩ := named
      cases marked_eq : bytes attr.marked with
      | nil => simp [marked_eq] at filled
      | cons b name =>
          have name_byte := name_bytes b (by simp [marked_eq])
          have visible := (TemplateAttribute.plain_of_isNameByte b name_byte).1
          rw [List.cons_append, List.cons_append, List.cons_append,
            List.dropWhile_cons_of_pos (by decide), List.dropWhile_cons_of_neg (by simp [visible])]
          exact fun same => ne_equals_of_isNameByte b name_byte (Option.some.inj same)

/-- A printed attribute is read back. -/
theorem tagRest?_cons (canonical : attr.Canonical) {rest : List UInt8} (ends : EndsName rest) :
    tagRest? (charByte ' ' :: (bytes attr.marked ++
        (bytes (attr.value.elim "" fun value => "=\"" ++ value ++ "\"") ++ rest))) =
      (tagRest? rest).map fun more => { more with attributes := attr :: more.attributes } := by
  have classified := TemplateAttribute.classify_of_canonical canonical
  cases value_eq : attr.value with
  | none =>
      have named := canonical.isNamed ""
      have found := TemplateAttribute.read?_bare named ends.attributeName ends.valueless
      have attr_eq : TemplateAttribute.ofWritten (bytes attr.marked) none = attr := by
        simp only [TemplateAttribute.ofWritten, bytes, decode_encode, classified,
          String.ofList_toList, Option.map_none, ← value_eq]
      simp only [QuotedAttribute.isNamed, Bool.and_eq_true, Bool.not_eq_true',
        List.all_eq_true] at named
      obtain ⟨filled, name_bytes⟩ := named
      rw [attr_eq] at found
      change tagRest? (charByte ' ' :: (bytes attr.marked ++ rest)) = _
      cases marked_eq : bytes attr.marked with
      | nil => simp [marked_eq] at filled
      | cons b name =>
          rw [marked_eq] at found
          exact tagRest?_of_read? (name_bytes b (by simp [marked_eq])) found
  | some value =>
      have found := tagRest?_quoted (canonical.isNamed value)
        (canonical.plain value (by simp [value_eq])) rest
      have attr_eq : QuotedAttribute.meant ⟨attr.marked, value⟩ = attr := by
        rw [QuotedAttribute.meant_eq value classified, ← value_eq]
      have value_bytes : bytes ("=\"" ++ value ++ "\"") ++ rest =
          charByte '=' :: charByte '"' :: (bytes value ++ charByte '"' :: rest) := by
        simp only [bytes_append, List.append_assoc]
        rfl
      rw [attr_eq] at found
      rwa [Option.elim_some, value_bytes]

/-- The attributes and the end of a printed tag are read back. -/
theorem tagRest?_printAll (canonical : ∀ attr ∈ attributes, attr.Canonical) (selfClosing : Bool)
    (behind : List UInt8) :
    tagRest? (bytes (TemplateAttribute.printAll attributes) ++
        (bytes (if selfClosing then "/>" else ">") ++ behind)) =
      some ⟨attributes, selfClosing, behind⟩ := by
  induction attributes with
  | nil => exact tagRest?_ending selfClosing behind
  | cons attr attributes induction =>
      obtain ⟨first, others⟩ := List.forall_mem_cons.mp canonical
      rw [bytes_printAll, List.cons_append, List.append_assoc, List.append_assoc,
        tagRest?_cons first (endsName_printAll others selfClosing behind), induction others]
      rfl

end Attributes

/-- A printed opening tag is read back. -/
theorem reads_opening {opening : OpeningTag} (canonical : opening.Canonical)
    (behind : List UInt8) (offset : Nat) :
    ∃ span, Reads (bytes opening.print) behind offset (.opening { opening with span := span }) := by
  have ends := endsName_printAll canonical.attributes opening.selfClosing behind
  have found := read_named canonical.begins canonical.named offset ends.tagName
  have closing : (opening.selfClosing || isVoid opening.tag) = opening.selfClosing := by
    have void := canonical.void
    grind
  rw [tagRest?_printAll canonical.attributes] at found
  simp only [closing] at found
  refine ⟨_, charByte '<', _, ?_, found⟩
  simp only [OpeningTag.print, bytes_append, List.append_assoc]
  rfl

/-- A printed closing tag is read back. -/
theorem reads_closing {tag : String} (named : ∀ b ∈ bytes tag, isTagByte b)
    (behind : List UInt8) (offset : Nat) :
    ∃ span, Reads (bytes ("</" ++ tag ++ ">")) behind offset (.closing tag span) := by
  have written : bytes ("</" ++ tag ++ ">") ++ behind =
      charByte '<' :: charByte '/' :: (bytes tag ++ charByte '>' :: behind) := by
    simp only [bytes_append, List.append_assoc]
    rfl
  have name_eq : spelled (bytes tag) = tag := by
    rw [spelled, bytes, decode_encode, String.ofList_toList]
  have name_ends : (charByte '>' :: behind).takeWhile isTagByte = [] := rfl
  have behind_name : (charByte '>' :: behind).dropWhile isTagByte = charByte '>' :: behind := rfl
  have visible : (charByte '>' :: behind).dropWhile isBlankByte = charByte '>' :: behind := rfl
  have found : ∃ span, readClosing offset (bytes tag ++ charByte '>' :: behind) =
      .ok (.closing tag span, behind) := by
    rw [readClosing, List.takeWhile_append_of_pos named, List.dropWhile_append_of_pos named,
      name_ends, behind_name, visible, List.append_nil, name_eq]
    exact ⟨_, rfl⟩
  obtain ⟨span, found⟩ := found
  exact ⟨span, charByte '<', _, written, found⟩

/-! ## Comments and interpolations -/

/-- The first place of a mark among bytes is behind a text that it does not stand in. -/
theorem splitFirst?_encode {c : Char} {mark run : List Char}
    (single : String.utf8EncodeChar c = [charByte c]) (ascii : charByte c < 0x80)
    (last : (encode (c :: mark)).dropLast = encode (c :: mark).dropLast)
    (nowhere : ¬c :: mark <:+: run ++ (c :: mark).dropLast) (behind : List UInt8) :
    splitFirst? (encode (c :: mark)) (encode run ++ (encode (c :: mark) ++ behind)) =
      some (encode run, behind) := by
  refine splitFirst?_eq_some_iff.mpr ⟨rfl, .of_nowhere ?_ (fun found => nowhere ?_) behind⟩
  · rw [encode, List.flatMap_cons, single]
    exact List.cons_ne_nil _ _
  · rw [last, ← encode_append] at found
    exact isInfix_of_encode single ascii found

/-- A printed comment is read back. -/
theorem reads_comment {body : String} (closed : ¬['-', '-', '>'] <:+: body.toList)
    (behind : List UInt8) (offset : Nat) :
    Reads (bytes ("<!--" ++ body ++ "-->")) behind offset (.comment body) := by
  have written : bytes ("<!--" ++ body ++ "-->") ++ behind = charByte '<' ::
      (encode ['!', '-', '-'] ++ (bytes body ++ (encode ['-', '-', '>'] ++ behind))) := by
    simp only [bytes_append, List.append_assoc]
    rfl
  have nowhere : ¬['-', '-', '>'] <:+: body.toList ++ ['-', '-'] := fun found =>
    closed (isInfix_of_append_right (by simp) (by simp) found)
  have found (rest : List UInt8) :
      read offset (charByte '<') (encode ['!', '-', '-'] ++ rest) = readComment offset rest := rfl
  refine ⟨charByte '<', _, written, ?_⟩
  rw [found, readComment, bytes, splitFirst?_encode rfl (by decide) rfl nowhere]
  simp only [spelled, decode_encode, String.ofList_toList]

/-- A printed interpolation is read back. -/
theorem reads_interpolation {gap expression : String} (blank : allBlank gap)
    (trimmed_eq : trimmed expression = expression)
    (closed : ¬['\x7d', '\x7d'] <:+: expression.toList)
    (apart : gap = "" → expression.toList.getLast? ≠ some '\x7d')
    (behind : List UInt8) (offset : Nat) :
    Reads (bytes ("\x7b\x7b" ++ gap ++ expression ++ gap ++ "\x7d\x7d")) behind offset
      (.interpolation expression) := by
  have written : bytes ("\x7b\x7b" ++ gap ++ expression ++ gap ++ "\x7d\x7d") ++ behind =
      charByte '\x7b' :: charByte '\x7b' :: (encode (gap.toList ++ expression.toList ++ gap.toList) ++
        (encode ['\x7d', '\x7d'] ++ behind)) := by
    simp only [bytes_append, encode_append, List.append_assoc]
    rfl
  have solid : ∀ c ∈ gap.toList, c ≠ '\x7d' := by
    rintro c member rfl
    have found := List.all_eq_true.mp blank _ member
    exact absurd found (by decide)
  have nowhere : ¬['\x7d', '\x7d'] <:+:
      gap.toList ++ expression.toList ++ gap.toList ++ ['\x7d'] := by
    rw [List.infix_concat_iff]
    rintro (ends | inside)
    · -- The last character would be a brace.
      rcases List.suffix_concat_iff.mp ends with empty | ⟨before, mark_eq, before_ends⟩
      · cases empty
      · obtain rfl : before = ['\x7d'] := (List.append_left_inj ['\x7d']).mp mark_eq.symm
        obtain ⟨front, front_eq⟩ := before_ends
        have last := congrArg List.getLast? front_eq
        rw [List.getLast?_concat, List.getLast?_append] at last
        cases gap_last : gap.toList.getLast? with
        | none =>
            have empty := List.getLast?_eq_none_iff.mp gap_last
            rw [gap_last, empty, List.nil_append, Option.none_or] at last
            exact apart (String.toList_eq_nil_iff.mp empty) last.symm
        | some c =>
            rw [gap_last, Option.some_or] at last
            exact solid c (List.mem_of_getLast? gap_last) (Option.some.inj last).symm
    · refine closed (isInfix_of_append_left (by simp) (fun c member same => ?_)
        (isInfix_of_append_right (by simp) (fun c member same => ?_) inside))
      · exact solid c member (Option.some.inj same).symm
      · exact solid c member (Option.some.inj same).symm
  have text_eq : trim expression.toList = expression.toList := by
    rw [← String.toList_ofList (l := trim expression.toList)]
    exact congrArg String.toList trimmed_eq
  have found (rest : List UInt8) :
      read offset (charByte '\x7b') (charByte '\x7b' :: rest) = readInterpolation offset rest := rfl
  refine ⟨charByte '\x7b', _, written, ?_⟩
  rw [found, readInterpolation, splitFirst?_encode rfl (by decide) rfl nowhere]
  simp only [spelled, decode_encode, trimmed, String.toList_ofList, trim_surrounded blank text_eq,
    String.ofList_toList]

/-! ## Texts -/

/-- No markup begins in a run before what is behind it. -/
def Unmarked (run behind : List UInt8) : Prop :=
  ∀ back, back ≠ [] → back <:+ run → beginsMarkup (back ++ behind) = false

/-- A run without markup is read up to where markup begins. -/
theorem textRun_append {run behind : List UInt8} (unmarked : Unmarked run behind)
    (stops : behind = [] ∨ beginsMarkup behind) : textRun (run ++ behind) = run := by
  induction run with
  | nil =>
      rcases stops with rfl | begins
      · rfl
      · cases behind with
        | nil => rfl
        | cons b rest => exact if_pos begins
  | cons b run induction =>
      have here := unmarked (b :: run) (List.cons_ne_nil b run) (List.suffix_refl _)
      rw [List.cons_append] at here
      rw [List.cons_append, textRun, here, if_neg Bool.false_ne_true, induction fun back filled ends =>
        unmarked back filled (ends.trans (List.suffix_cons b run))]

set_option maxRecDepth 20000 in
theorem ascii_of_isLetter : ∀ b : UInt8, isLetter b → b < 0x80 :=
  forall_byte (by decide)

theorem beginsMarkup_cons_cons {b next : UInt8} {rest : List UInt8} :
    beginsMarkup (b :: next :: rest) ↔
      b = charByte '<' ∧ (next = charByte '/' ∨ next = charByte '!' ∨ isLetter next) ∨
        b = charByte '\x7b' ∧ next = charByte '\x7b' := by
  simp only [beginsMarkup, Bool.or_eq_true, Bool.and_eq_true, beq_iff_eq, or_assoc]

/-- In a quiet text no tag, comment or interpolation begins, nor does one with what follows. -/
theorem unmarked_bytes {content : String} (quiet : TemplateNode.Quiet content.toList)
    {behind : List UInt8} (stops : behind = [] ∨ beginsMarkup behind)
    (braced : content.toList.getLast? = some '\x7b' → behind.head? ≠ some (charByte '\x7b')) :
    Unmarked (bytes content) behind := by
  intro back filled ends
  rw [Bool.eq_false_iff]
  intro begins
  match back with
  | [b] =>
      -- What follows begins with a byte of markup itself.
      rcases stops with rfl | stops
      · cases begins
      · match behind with
        | [next] => cases stops
        | next :: later :: rest =>
            rw [List.singleton_append, beginsMarkup_cons_cons] at begins
            rcases begins with ⟨-, second⟩ | ⟨rfl, rfl⟩
            · rcases beginsMarkup_cons_cons.mp stops with ⟨rfl, -⟩ | ⟨rfl, -⟩ <;> revert second <;> decide
            · refine braced (getLast?_of_charByte rfl (by decide) ?_) rfl
              obtain ⟨front, bytes_eq⟩ := ends
              rw [← bytes, ← bytes_eq, List.getLast?_concat]
  | b :: c :: rest =>
      have found : [b, c] <:+: bytes content :=
        (List.prefix_append [b, c] rest).isInfix.trans ends.isInfix
      rcases beginsMarkup_cons_cons.mp begins with ⟨rfl, second⟩ | ⟨rfl, rfl⟩
      · have ascii : c < 0x80 := by
          rcases second with rfl | rfl | letter
          · decide
          · decide
          · exact ascii_of_isLetter c letter
        have spelled_eq : encode ['<', byteChar c] = [charByte '<', c] :=
          congrArg (charByte '<' :: ·) ((List.append_nil _).trans (utf8EncodeChar_ofNat ascii))
        have inside : ['<', byteChar c] <:+: content.toList :=
          isInfix_of_encode rfl (by decide) (spelled_eq ▸ found)
        obtain ⟨no_closing, no_comment, no_opening⟩ :=
          quiet.angles (byteChar c) (inside.subset (by simp)) inside
        rcases second with rfl | rfl | letter
        · exact no_closing rfl
        · exact no_comment rfl
        · exact Bool.false_ne_true (no_opening.symm.trans letter)
      · exact quiet.braces (isInfix_of_encode rfl (by decide) found)

/-- Bytes that begin with no markup are read as text. -/
theorem read_of_not_beginsMarkup {first : UInt8} {inside : List UInt8}
    (plain : beginsMarkup (first :: inside) = false) (offset : Nat) :
    read offset first inside = .ok (readText first inside) := by
  have marks : encode ['<', '!', '-', '-'] =
      charByte '<' :: charByte '!' :: [charByte '-', charByte '-'] := rfl
  have no_comment : ¬(encode ['<', '!', '-', '-']).isPrefixOf (first :: inside) := by
    rw [List.isPrefixOf_iff_prefix, marks]
    rintro ⟨more, same⟩
    rw [← same] at plain
    exact Bool.false_ne_true plain.symm
  rw [read, if_neg no_comment]
  cases inside with
  | nil => simp
  | cons next rest =>
      rw [Bool.eq_false_iff, ne_eq, beginsMarkup_cons_cons] at plain
      rw [if_neg, if_neg, if_neg]
      · grind
      · grind
      · grind

/-- A printed text is read back. -/
theorem reads_text {content : String} (quiet : TemplateNode.Quiet content.toList)
    (blank : allBlank content → content = " ") {behind : List UInt8}
    (stops : behind = [] ∨ beginsMarkup behind)
    (braced : content.toList.getLast? = some '\x7b' → behind.head? ≠ some (charByte '\x7b'))
    (offset : Nat) : Reads (bytes content) behind offset (.text content) := by
  have unmarked := unmarked_bytes quiet stops braced
  have content_eq : textContent content = content := by
    rw [textContent]
    split
    · rename_i all_blank
      exact (blank all_blank).symm
    · rfl
  have spelled_eq : spelled (bytes content) = content := by
    rw [spelled, bytes, decode_encode, String.ofList_toList]
  cases bytes_eq : bytes content with
  | nil =>
      rw [bytes_eq] at spelled_eq
      have empty : allBlank content := spelled_eq ▸ rfl
      rw [blank empty] at bytes_eq
      cases bytes_eq
  | cons first run =>
      rw [bytes_eq] at unmarked spelled_eq
      have here := unmarked (first :: run) (List.cons_ne_nil first run) (List.suffix_refl _)
      rw [List.cons_append] at here
      have run_eq : textRun (run ++ behind) = run :=
        textRun_append (fun back filled ends =>
          unmarked back filled (ends.trans (List.suffix_cons first run))) stops
      refine ⟨first, run ++ behind, rfl, ?_⟩
      rw [read_of_not_beginsMarkup here, readText, run_eq, spelled_eq, content_eq, List.drop_left]

end TemplatePiece

/-! ## Forests -/

namespace Nesting

open TemplateNode

/-- The forest of a template of which the nesting is read, given the bytes that are left. -/
def forest (nesting : Nesting) (offset : Nat) (bytes : List UInt8) :
    Except TemplateError (List TemplateNode) := do
  let (pieces, fault) := TemplatePiece.all offset bytes
  let nesting ← pieces.foldlM add nesting
  match fault with
  | some error => throw error
  | none => nesting.finish

theorem forest_nil (nesting : Nesting) (offset : Nat) : nesting.forest offset [] = nesting.finish := by
  rw [forest, TemplatePiece.all]
  rfl

/-- A piece is taken in before what is behind it. -/
theorem forest_cons (nesting : Nesting) (offset : Nat) (first : UInt8) (bytes : List UInt8) :
    nesting.forest offset (first :: bytes) =
      match TemplatePiece.read offset first bytes with
      | .ok (piece, rest) => nesting.add piece >>= fun after =>
        after.forest (offset + 1 + (bytes.length - rest.length)) rest
      | .error error => .error error := by
  have all_eq : TemplatePiece.all offset (first :: bytes) =
      match TemplatePiece.read offset first bytes with
      | .ok (piece, rest) =>
        let (pieces, error) := TemplatePiece.all (offset + 1 + (bytes.length - rest.length)) rest
        (piece :: pieces, error)
      | .error error => ([], some error) := by
    rw [TemplatePiece.all]
    split <;> rename_i read_eq <;> rw [read_eq]
  rw [forest, all_eq]
  cases TemplatePiece.read offset first bytes with
  | ok found =>
      obtain ⟨piece, rest⟩ := found
      simp only [List.foldlM_cons]
      cases nesting.add piece <;> rfl
  | error error => rfl

/-- Reading goes on behind a piece that is taken in. -/
theorem forest_of_reads {nesting after : Nesting} {written behind : List UInt8} {offset : Nat}
    {piece : TemplatePiece} (reads : TemplatePiece.Reads written behind offset piece)
    (step : nesting.add piece = .ok after) :
    ∃ next, nesting.forest offset (written ++ behind) = after.forest next behind := by
  obtain ⟨first, inside, bytes_eq, found⟩ := reads
  refine ⟨offset + 1 + (inside.length - behind.length), ?_⟩
  rw [bytes_eq, forest_cons, found]
  simp only [step]
  rfl

theorem foldl_put_inside (opening : OpeningTag) (outer : List OpenElement)
    (roots children nodes : List TemplateNode) :
    nodes.foldl put ⟨⟨opening, children⟩ :: outer, roots⟩ =
      ⟨⟨opening, children ++ nodes⟩ :: outer, roots⟩ := by
  induction nodes generalizing children with
  | nil => rw [List.append_nil, List.foldl_nil]
  | cons node nodes induction =>
      rw [List.foldl_cons, put, induction, List.append_assoc, List.singleton_append]

theorem foldl_put_outside (roots nodes : List TemplateNode) :
    nodes.foldl put ⟨[], roots⟩ = ⟨[], roots ++ nodes⟩ := by
  induction nodes generalizing roots with
  | nil => rw [List.append_nil, List.foldl_nil]
  | cons node nodes induction =>
      rw [List.foldl_cons, put, induction, List.append_assoc, List.singleton_append]

end Nesting

namespace TemplateNode

/-- What may follow nodes: nothing or the closing tag of the element around them. -/
def Ends (behind : List UInt8) : Prop :=
  behind = [] ∨ ∃ rest, behind = charByte '<' :: charByte '/' :: rest

theorem bytes_print_append (gap : String) (node : TemplateNode) (nodes : List TemplateNode)
    (behind : List UInt8) :
    bytes (printAll gap (node :: nodes)) ++ behind =
      bytes (print gap node) ++ (bytes (printAll gap nodes) ++ behind) := by
  rw [printAll, bytes_append, List.append_assoc]

variable {gap : String} {top : Bool} {nodes : List TemplateNode} {behind : List UInt8}

/-- A text ends at what is printed for nodes that do not begin with a text. -/
theorem stops_printAll (canonical : Canonical gap top nodes) (other : ¬nodes.head?.any isText)
    (ends : Ends behind) :
    (bytes (printAll gap nodes) ++ behind = [] ∨
        TemplatePiece.beginsMarkup (bytes (printAll gap nodes) ++ behind)) ∧
      ((bytes (printAll gap nodes) ++ behind).head? = some (charByte '\x7b') →
        nodes.head?.any isInterpolation) := by
  cases canonical with
  | nil =>
      rcases ends with rfl | ⟨rest, rfl⟩
      · exact ⟨.inl rfl, fun found => by cases found⟩
      · exact ⟨.inr rfl, fun found => absurd (Option.some.inj found) (by decide)⟩
  | @element _ opening children nodes closing opening_canonical =>
      have begins := opening_canonical.begins
      cases tag_eq : bytes opening.tag with
      | nil => simp [tag_eq] at begins
      | cons b name =>
          have letter : TemplatePiece.isLetter b := by simpa [tag_eq] using begins
          rw [bytes_print_append, print, OpeningTag.print]
          simp only [bytes_append, tag_eq, List.append_assoc, List.cons_append]
          refine ⟨.inr (TemplatePiece.beginsMarkup_cons_cons.mpr (.inl ⟨rfl, .inr (.inr letter)⟩)), ?_⟩
          exact fun found => absurd (Option.some.inj found) (by decide)
  | text => exact absurd rfl other
  | interpolation =>
      rw [bytes_print_append, print]
      simp only [bytes_append, List.append_assoc]
      exact ⟨.inr (TemplatePiece.beginsMarkup_cons_cons.mpr (.inr ⟨rfl, rfl⟩)), fun _ => rfl⟩
  | comment =>
      rw [bytes_print_append, print]
      simp only [bytes_append, List.append_assoc]
      refine ⟨.inr (TemplatePiece.beginsMarkup_cons_cons.mpr (.inl ⟨rfl, .inr (.inl rfl)⟩)), ?_⟩
      exact fun found => absurd (Option.some.inj found) (by decide)

/-- What is printed for nodes is read from any place on, and they are put behind all that is read
before. -/
def PutBehind (gap : String) (nodes : List TemplateNode) (behind : List UInt8) : Prop :=
  ∀ (nesting : Nesting) (offset : Nat), ∃ placed next, ReadAs placed nodes ∧
    nesting.forest offset (bytes (printAll gap nodes) ++ behind) =
      (placed.foldl Nesting.put nesting).forest next behind

namespace PutBehind

/-- A leaf is read as one piece. -/
theorem leaf {node : TemplateNode} {piece : TemplatePiece} (plain : node.isLeaf)
    (reads : ∀ offset, TemplatePiece.Reads (bytes (print gap node))
      (bytes (printAll gap nodes) ++ behind) offset piece)
    (step : ∀ nesting, Nesting.add nesting piece = .ok (nesting.put node))
    (rest : PutBehind gap nodes behind) : PutBehind gap (node :: nodes) behind := by
  intro nesting offset
  obtain ⟨next, passed⟩ := Nesting.forest_of_reads (reads offset) (step nesting)
  obtain ⟨placed, after, same, forest_eq⟩ := rest (nesting.put node) next
  refine ⟨node :: placed, after, .leaf plain same, ?_⟩
  rw [bytes_print_append, passed, forest_eq]
  rfl

/-- An element that is nothing but its opening tag is read as one piece. -/
theorem selfClosing {opening : OpeningTag} (closing : Option Span) (canonical : opening.Canonical)
    (whole : opening.selfClosing) (rest : PutBehind gap nodes behind) :
    PutBehind gap (.element opening [] closing :: nodes) behind := by
  intro nesting offset
  obtain ⟨span, reads⟩ := TemplatePiece.reads_opening canonical
    (bytes (printAll gap nodes) ++ behind) offset
  let node : TemplateNode := .element { opening with span := span } [] none
  have step : nesting.add (.opening { opening with span := span }) = .ok (nesting.put node) :=
    if_pos whole
  obtain ⟨next, passed⟩ := Nesting.forest_of_reads reads step
  obtain ⟨placed, after, same, forest_eq⟩ := rest (nesting.put node) next
  refine ⟨node :: placed, after, .element (by simp [whole]) .nil same, ?_⟩
  rw [bytes_print_append, print, if_pos whole, String.append_empty, passed, forest_eq]
  rfl

/-- An element is read as its opening tag, what it holds, and its closing tag. -/
theorem element {opening : OpeningTag} {children : List TemplateNode} (closing : Option Span)
    (canonical : opening.Canonical) (opened : opening.selfClosing = false)
    (inside : PutBehind gap children
      (bytes ("</" ++ opening.tag ++ ">") ++ (bytes (printAll gap nodes) ++ behind)))
    (rest : PutBehind gap nodes behind) :
    PutBehind gap (.element opening children closing :: nodes) behind := by
  intro nesting offset
  obtain ⟨span, reads_opening⟩ := TemplatePiece.reads_opening canonical
    (bytes (printAll gap children) ++ (bytes ("</" ++ opening.tag ++ ">") ++
      (bytes (printAll gap nodes) ++ behind))) offset
  obtain ⟨stack, roots⟩ := nesting
  have step : Nesting.add ⟨stack, roots⟩ (.opening { opening with span := span }) =
      .ok ⟨⟨{ opening with span := span }, []⟩ :: stack, roots⟩ := if_neg (by simp [opened])
  obtain ⟨first, passed_opening⟩ := Nesting.forest_of_reads reads_opening step
  obtain ⟨held, second, held_same, passed_children⟩ := inside _ first
  rw [Nesting.foldl_put_inside, List.nil_append] at passed_children
  obtain ⟨span_end, reads_closing⟩ := TemplatePiece.reads_closing canonical.named
    (bytes (printAll gap nodes) ++ behind) second
  let node : TemplateNode := .element { opening with span := span } held (some span_end)
  have closes : Nesting.add ⟨⟨{ opening with span := span }, held⟩ :: stack, roots⟩
      (.closing opening.tag span_end) = .ok (Nesting.put ⟨stack, roots⟩ node) := by
    simp only [Nesting.add, Nesting.closed?, if_true, List.append_nil, node]
  obtain ⟨third, passed_closing⟩ := Nesting.forest_of_reads reads_closing closes
  obtain ⟨placed, after, same, forest_eq⟩ := rest (Nesting.put ⟨stack, roots⟩ node) third
  refine ⟨node :: placed, after, .element (by simp [opened]) held_same same, ?_⟩
  rw [bytes_print_append, print, if_neg (by simp [opened]), String.append_assoc,
    String.append_assoc, bytes_append, bytes_append, List.append_assoc, List.append_assoc,
    ← String.append_assoc, passed_opening, passed_children, passed_closing, forest_eq]
  rfl

end PutBehind

/-- Printed nodes in canonical form are read and put behind what is there. -/
theorem putBehind_of_canonical (canonical : Canonical gap top nodes) (blank : allBlank gap)
    (ends : Ends behind) : PutBehind gap nodes behind := by
  induction canonical generalizing behind with
  | nil => exact fun _ offset => ⟨[], offset, .nil, rfl⟩
  | @element top opening children nodes closing opening_canonical whole _ _ inside rest =>
      cases opened : opening.selfClosing with
      | true =>
          rw [whole opened]
          exact .selfClosing closing opening_canonical opened (rest ends)
      | false =>
          refine .element closing opening_canonical opened (inside (.inr ?_)) (rest ends)
          simp only [bytes_append, List.append_assoc]
          exact ⟨_, rfl⟩
  | @text top content nodes quiet solid other braced canonical rest =>
      obtain ⟨stops, interpolated⟩ := stops_printAll canonical other ends
      exact .leaf rfl (TemplatePiece.reads_text quiet (fun all_blank => (solid all_blank).1) stops
        fun last first => braced (interpolated first) last) (fun _ => rfl) (rest ends)
  | interpolation trimmed_eq closed apart _ rest =>
      exact .leaf rfl (TemplatePiece.reads_interpolation blank trimmed_eq closed apart _)
        (fun _ => rfl) (rest ends)
  | comment closed _ rest =>
      exact .leaf rfl (TemplatePiece.reads_comment closed _) (fun _ => rfl) (rest ends)

/-- What is read for the roots of a forest in canonical form has no blanks. -/
theorem significant_of_readAs {placed : List TemplateNode} (same : ReadAs placed nodes)
    (canonical : Canonical gap true nodes) : significant placed = placed := by
  induction same with
  | nil => rfl
  | element _ _ _ _ rest =>
      cases canonical with
      | element _ _ _ _ canonical => rw [significant_cons, rest canonical]; rfl
  | @leaf node _ _ _ _ rest =>
      cases canonical with
      | text quiet solid other braced canonical =>
          have visible : ¬isBlank (.text _) := fun blank => Bool.noConfusion (solid blank).2
          rw [significant_cons, if_neg visible, rest canonical]
      | interpolation _ _ _ canonical => rw [significant_cons, rest canonical]; rfl
      | comment _ canonical => rw [significant_cons, rest canonical]; rfl
      | element => cases ‹isLeaf _ = true›

/-- A forest in canonical form is read back from what is printed for it. -/
theorem forest_printAll (canonical : Canonical gap true nodes) (blank : allBlank gap) (base : Nat) :
    ∃ placed, forest base (printAll gap nodes) = .ok placed ∧ ReadAs placed nodes := by
  obtain ⟨placed, next, same, forest_eq⟩ :=
    putBehind_of_canonical canonical blank (.inl rfl) .empty base
  refine ⟨placed, ?_, same⟩
  have whole : forest base (printAll gap nodes) =
      Nesting.empty.forest base (bytes (printAll gap nodes)) := rfl
  rw [List.append_nil, Nesting.empty, Nesting.foldl_put_outside, List.nil_append,
    Nesting.forest_nil, Nesting.finish, significant_of_readAs same canonical] at forest_eq
  rw [whole, Nesting.empty, forest_eq]

/-- Nodes of every kind, with what looks like markup between them. -/
theorem forest_printAll_everyNode :
    let list : OpeningTag := ⟨"ul", [⟨.directive, "for", some "x in xs"⟩, ⟨.on, "click", none⟩,
      ⟨.plain, "title", some "é>'"⟩], false, ⟨0, 0⟩⟩
    let rule : OpeningTag := ⟨"BR", [⟨.bind, "", none⟩], true, ⟨0, 0⟩⟩
    ∃ placed, forest 3 ("<!-----><ul v-for=\"x in xs\" @click title=\"é>'\"> " ++
        "\x7b\x7b x\x7d \x7d\x7da < b \x7b<BR :/></ul>") = .ok placed ∧
      ReadAs placed [.comment "-", .element list [.text " ", .interpolation "x\x7d",
        .text "a < b \x7b", .element rule [] none] none] := by
  intro list rule
  have rule_canonical : rule.Canonical :=
    ⟨by decide +kernel, by decide +kernel,
      List.forall_mem_singleton.mpr ⟨by decide +kernel, trivial, by simp⟩, fun _ => rfl⟩
  have list_canonical : list.Canonical := by
    refine ⟨by decide +kernel, by decide +kernel, ?_, by decide +kernel⟩
    refine List.forall_mem_cons.mpr ⟨?_, List.forall_mem_cons.mpr ⟨?_, List.forall_mem_singleton.mpr ?_⟩⟩
    · exact ⟨by decide +kernel, by decide +kernel, by decide +kernel⟩
    · exact ⟨by decide +kernel, trivial, by simp⟩
    · exact ⟨by decide +kernel, by decide +kernel, by decide +kernel⟩
  have quiet_space : Quiet " ".toList := by decide +kernel
  have quiet_text : Quiet "a < b \x7b".toList := by decide +kernel
  have canonical : Canonical " " true [.comment "-", .element list [.text " ",
      .interpolation "x\x7d", .text "a < b \x7b", .element rule [] none] none] := by
    refine .comment (by decide) (.element none list_canonical (by decide) ?_ (.nil true))
    refine .text quiet_space (by decide +kernel) (by decide) (by decide) ?_
    refine .interpolation (by decide +kernel) (by decide) (by decide) ?_
    refine .text quiet_text (by decide +kernel) (by decide) (by decide) ?_
    exact .element none rule_canonical (fun _ => rfl) (.nil false) (.nil false)
  have written : printAll " " [.comment "-", .element list [.text " ", .interpolation "x\x7d",
      .text "a < b \x7b", .element rule [] none] none] =
        "<!-----><ul v-for=\"x in xs\" @click title=\"é>'\"> " ++
          "\x7b\x7b x\x7d \x7d\x7da < b \x7b<BR :/></ul>" := by decide +kernel
  have found := forest_printAll canonical rfl 3
  rwa [written] at found

end TemplateNode

end IslandSlots
