import IslandSlots.Proofs.Text.Utf8
import IslandSlots.Template.Piece

/-!
# Opening tags with quoted values

An opening tag that is written with its values in double quotes is read back as it was meant as
long as none of the values has a double quote. A value that has one is read up to there, also when
the escaped quotes of values are turned back.
-/

namespace IslandSlots

open Text

/-! ## Quotes in texts -/

/-- How a double quote is written inside double quotes. -/
def quoteEscape : List Char := ['&', 'q', 'u', 'o', 't', ';']

/-- A text with its escaped double quotes turned back. -/
def unescapeQuotes : List Char → List Char
  | '&' :: 'q' :: 'u' :: 'o' :: 't' :: ';' :: rest => '"' :: unescapeQuotes rest
  | c :: rest => c :: unescapeQuotes rest
  | [] => []

theorem unescapeQuotes_escape (rest : List Char) :
    unescapeQuotes (quoteEscape ++ rest) = '"' :: unescapeQuotes rest := rfl

theorem unescapeQuotes_cons {c : Char} {rest : List Char} (other : ¬quoteEscape <+: c :: rest) :
    unescapeQuotes (c :: rest) = c :: unescapeQuotes rest := by
  refine unescapeQuotes.eq_2 c rest fun behind first next => other ⟨behind, ?_⟩
  rw [first, next]
  rfl

/-- An escaped quote in front of a text is before the first quote in it. -/
theorem quoteEscape_prefix {front back : List Char}
    (found : quoteEscape <+: front ++ '"' :: back) : quoteEscape <+: front := by
  obtain ⟨behind, same⟩ := found
  rcases List.append_eq_append_iff.mp same with ⟨more, rfl, -⟩ | ⟨more, escape_eq, rest_eq⟩
  · exact List.prefix_append quoteEscape more
  · cases more with
    | nil =>
        rw [List.append_nil] at escape_eq
        exact escape_eq ▸ List.prefix_rfl
    | cons first more =>
        obtain ⟨rfl, -⟩ := List.cons.inj rest_eq
        have inside : '"' ∈ quoteEscape := by simp [escape_eq]
        exact absurd inside (by decide)

/-- A quote splits what is turned back as it splits the text. -/
theorem unescapeQuotes_append (front back : List Char) :
    unescapeQuotes (front ++ '"' :: back) = unescapeQuotes front ++ '"' :: unescapeQuotes back := by
  fun_induction unescapeQuotes front with
  | case1 rest induction => exact congrArg ('"' :: ·) induction
  | case2 c rest other induction =>
      rw [List.cons_append, unescapeQuotes_cons, induction]
      · rfl
      · intro escaped
        obtain ⟨behind, same⟩ : quoteEscape <+: c :: rest := quoteEscape_prefix escaped
        obtain ⟨rfl, rfl⟩ := List.cons.inj same
        exact other behind rfl rfl
  | case3 => rfl

/-! ## Attributes -/

/-- An attribute with the escaped quotes of its value turned back. -/
def TemplateAttribute.unescaped (attr : TemplateAttribute) : TemplateAttribute :=
  { attr with value := attr.value.map fun value => String.ofList (unescapeQuotes value.toList) }

/-- An attribute that is to be written with its value in double quotes. -/
structure QuotedAttribute where
  /-- The name with the mark of its kind. -/
  name : String
  /-- The value. -/
  value : String

namespace QuotedAttribute

/-- Whether the name can be read. -/
def isNamed (attr : QuotedAttribute) : Bool :=
  !(bytes attr.name).isEmpty && (bytes attr.name).all TemplateAttribute.isNameByte

/-- The value has no quote. -/
def Plain (attr : QuotedAttribute) : Prop :=
  '"' ∉ attr.value.toList

/-- The attribute that is meant. -/
def meant (attr : QuotedAttribute) : TemplateAttribute :=
  let (kind, name) := TemplateAttribute.classify attr.name.toList
  ⟨kind, String.ofList name, some attr.value⟩

theorem isNamed_eq (name value : String) : isNamed ⟨name, value⟩ = isNamed ⟨name, ""⟩ := rfl

theorem meant_eq {name inner : String} {kind : AttributeKind} (value : String)
    (classified : TemplateAttribute.classify name.toList = (kind, inner.toList)) :
    meant ⟨name, value⟩ = ⟨kind, inner, some value⟩ := by
  simp only [meant, classified, String.ofList_toList]

/-- Attributes as text. -/
def text : List QuotedAttribute → String
  | [] => ""
  | attr :: more => " " ++ attr.name ++ "=\"" ++ attr.value ++ "\"" ++ text more

/-- The opening tag of a box as text. -/
def boxText (attributes : List QuotedAttribute) (selfClosing : Bool) : String :=
  "<div" ++ text attributes ++ if selfClosing then "/>" else ">"

end QuotedAttribute

theorem QuotedAttribute.bytes_text (attr : QuotedAttribute) (more : List QuotedAttribute) :
    bytes (text (attr :: more)) =
      charByte ' ' :: (bytes attr.name ++ charByte '=' :: charByte '"' ::
        (bytes attr.value ++ charByte '"' :: bytes (text more))) := by
  simp only [text, bytes_append, List.append_assoc]
  rfl

namespace TemplateAttribute

/-- A quoted value ends at its first quote. -/
theorem readAssignment_quoted {value : String} (plain : '"' ∉ value.toList)
    (behind : List UInt8) :
    readAssignment (charByte '=' :: charByte '"' :: (bytes value ++ charByte '"' :: behind)) =
      (some (bytes value), behind) := by
  have inside : ∀ b ∈ bytes value, (b != charByte '"') = true := fun b found => by
    have other : b ≠ charByte '"' := fun same =>
      plain (mem_of_charByte_mem (by decide) (by decide) (same ▸ found))
    simpa using other
  have equals (rest : List UInt8) :
      (charByte '=' :: rest).dropWhile isBlankByte = charByte '=' :: rest := rfl
  have quote (rest : List UInt8) :
      (charByte '"' :: rest).dropWhile isBlankByte = charByte '"' :: rest := rfl
  rw [readAssignment, equals]
  simp only [beq_self_eq_true, if_true, quote, readValue, Bool.true_or]
  rw [List.takeWhile_append_of_pos inside, List.dropWhile_append_of_pos inside]
  simp

theorem read?_quoted {attr : QuotedAttribute} (named : attr.isNamed) (plain : attr.Plain)
    (behind : List UInt8) :
    read? (bytes attr.name ++ charByte '=' :: charByte '"' ::
      (bytes attr.value ++ charByte '"' :: behind)) = some (attr.meant, behind) := by
  simp only [QuotedAttribute.isNamed, Bool.and_eq_true, Bool.not_eq_true', List.all_eq_true] at named
  obtain ⟨filled, name_bytes⟩ := named
  have equals (rest : List UInt8) : (charByte '=' :: rest).takeWhile isNameByte = [] := rfl
  have behind_name (rest : List UInt8) :
      (charByte '=' :: rest).dropWhile isNameByte = charByte '=' :: rest := rfl
  simp only [read?, List.takeWhile_append_of_pos name_bytes, List.dropWhile_append_of_pos name_bytes,
    equals, behind_name, List.append_nil, filled, readAssignment_quoted plain]
  simp [QuotedAttribute.meant, ofWritten, bytes, decode_encode]

end TemplateAttribute

set_option maxRecDepth 20000 in
theorem TemplateAttribute.plain_of_isNameByte : ∀ b : UInt8, isNameByte b →
    isBlankByte b = false ∧ b ≠ charByte '>' ∧ b ≠ charByte '/' :=
  forall_byte (by decide)

namespace TemplatePiece

/-- What follows the name of a tag, by the first byte that is no blank. -/
theorem tagRest?_of_dropWhile {bytes rest : List UInt8} {b : UInt8}
    (starts : bytes.dropWhile isBlankByte = b :: rest) :
    tagRest? bytes =
      if b == charByte '>' then some ⟨[], false, rest⟩
      else if b == charByte '/' then
        if (rest.dropWhile isBlankByte).head? = some (charByte '>') then
          some ⟨[], true, (rest.dropWhile isBlankByte).drop 1⟩
        else tagRest? (rest.dropWhile isBlankByte)
      else
        match TemplateAttribute.read? (b :: rest) with
        | some (attr, rest) =>
          (tagRest? rest).map fun more => { more with attributes := attr :: more.attributes }
        | none => tagRest? rest := by
  rw [tagRest?]
  split
  · rename_i nothing
    rw [starts] at nothing
    cases nothing
  · rename_i first more blanks
    rw [starts] at blanks
    obtain ⟨rfl, rfl⟩ := List.cons.inj blanks
    split
    · rfl
    · split
      · rfl
      · split <;> simp_all

/-- An attribute at the front of what follows the name of a tag. -/
theorem tagRest?_of_read? {b : UInt8} {bytes behind : List UInt8} {attr : TemplateAttribute}
    (named : TemplateAttribute.isNameByte b)
    (found : TemplateAttribute.read? (b :: bytes) = some (attr, behind)) :
    tagRest? (charByte ' ' :: b :: bytes) =
      (tagRest? behind).map fun more => { more with attributes := attr :: more.attributes } := by
  obtain ⟨visible, not_end, not_slash⟩ := TemplateAttribute.plain_of_isNameByte b named
  have skipped : (charByte ' ' :: b :: bytes).dropWhile isBlankByte = b :: bytes := by
    rw [List.dropWhile_cons_of_pos (by decide), List.dropWhile_cons_of_neg (by simp [visible])]
  rw [tagRest?_of_dropWhile skipped, if_neg (by simpa using not_end),
    if_neg (by simpa using not_slash), found]

/-- The first attribute after the name of a tag, and the rest of the tag behind it. -/
theorem tagRest?_quoted {attr : QuotedAttribute} (named : attr.isNamed) (plain : attr.Plain)
    (behind : List UInt8) :
    tagRest? (charByte ' ' :: (bytes attr.name ++ charByte '=' :: charByte '"' ::
        (bytes attr.value ++ charByte '"' :: behind))) =
      (tagRest? behind).map fun more =>
        { more with attributes := attr.meant :: more.attributes } := by
  have found := TemplateAttribute.read?_quoted named plain behind
  simp only [QuotedAttribute.isNamed, Bool.and_eq_true, Bool.not_eq_true', List.all_eq_true] at named
  obtain ⟨filled, name_bytes⟩ := named
  cases bytes_eq : bytes attr.name with
  | nil => simp [bytes_eq] at filled
  | cons b rest =>
      rw [bytes_eq] at found
      exact tagRest?_of_read? (name_bytes b (by simp [bytes_eq])) found

/-- Attributes without quotes in their values are read back. -/
theorem tagRest?_text {attributes : List QuotedAttribute} (named : ∀ attr ∈ attributes, attr.isNamed)
    (plain : ∀ attr ∈ attributes, attr.Plain) (behind : List UInt8) :
    tagRest? (bytes (QuotedAttribute.text attributes) ++ behind) =
      (tagRest? behind).map fun more =>
        { more with attributes := attributes.map QuotedAttribute.meant ++ more.attributes } := by
  induction attributes with
  | nil => exact Option.map_id'.symm
  | cons attr attributes induction =>
      obtain ⟨name_named, named⟩ := List.forall_mem_cons.mp named
      obtain ⟨value_plain, plain⟩ := List.forall_mem_cons.mp plain
      simp only [QuotedAttribute.bytes_text, List.cons_append, List.append_assoc]
      rw [tagRest?_quoted name_named value_plain, induction named plain, Option.map_map]
      rfl

/-- An attribute with a quote in its value is read with another value. -/
theorem exists_first_of_not_plain {attr : QuotedAttribute} {behind : List UInt8} {rest : TagRest}
    (named : attr.isNamed) (quoted : ¬attr.Plain)
    (found : tagRest? (charByte ' ' :: (bytes attr.name ++ charByte '=' :: charByte '"' ::
      (bytes attr.value ++ charByte '"' :: behind))) = some rest) :
    ∃ value more, rest.attributes = QuotedAttribute.meant ⟨attr.name, value⟩ :: more ∧
      (QuotedAttribute.meant ⟨attr.name, value⟩).unescaped ≠ attr.meant.unescaped := by
  -- The value is read up to its first quote, and the rest of it counts as attributes.
  obtain ⟨front, back, value_eq, before⟩ :=
    List.eq_append_cons_of_mem (Decidable.not_not.mp quoted)
  let cut : QuotedAttribute := ⟨attr.name, String.ofList front⟩
  have cut_plain : cut.Plain := by rwa [QuotedAttribute.Plain, String.toList_ofList]
  have value_bytes : bytes attr.value = bytes cut.value ++ charByte '"' :: encode back := by
    rw [bytes, value_eq, encode_append, bytes, String.toList_ofList]
    rfl
  have first := @tagRest?_quoted cut named cut_plain
    (encode back ++ charByte '"' :: behind)
  rw [value_bytes, List.append_assoc, List.cons_append, first] at found
  obtain ⟨more, -, rfl⟩ := Option.map_eq_some_iff.mp found
  refine ⟨cut.value, more.attributes, rfl, fun same => ?_⟩
  have values := congrArg TemplateAttribute.value same
  simp only [TemplateAttribute.unescaped, QuotedAttribute.meant, cut, Option.map_some,
    String.toList_ofList, value_eq, unescapeQuotes_append, Option.some.injEq, String.ofList_inj,
    List.self_eq_append_right, reduceCtorEq] at values

/-- If attributes are read back, up to quotes that are turned back, their values have no quotes. -/
theorem plain_of_tagRest? {attributes : List QuotedAttribute} {behind : List UInt8}
    {rest : TagRest} {more : List TemplateAttribute} (named : ∀ attr ∈ attributes, attr.isNamed)
    (found : tagRest? (bytes (QuotedAttribute.text attributes) ++ behind) = some rest)
    (same : rest.attributes.map TemplateAttribute.unescaped =
      attributes.map (fun attr => attr.meant.unescaped) ++ more) :
    ∀ attr ∈ attributes, attr.Plain := by
  induction attributes generalizing rest with
  | nil => exact List.forall_mem_nil _
  | cons attr attributes induction =>
      obtain ⟨name_named, named⟩ := List.forall_mem_cons.mp named
      simp only [QuotedAttribute.bytes_text, List.cons_append, List.append_assoc] at found
      by_cases plain : attr.Plain
      · rw [tagRest?_quoted name_named plain] at found
        obtain ⟨after, after_eq, rfl⟩ := Option.map_eq_some_iff.mp found
        exact List.forall_mem_cons.mpr ⟨plain,
          induction named after_eq (List.cons.inj same).2⟩
      · obtain ⟨first, others, attributes_eq, different⟩ :=
          exists_first_of_not_plain name_named plain found
        rw [attributes_eq] at same
        exact absurd (List.cons.inj same).1 different

/-! ## Boxes -/

/-- Some bytes in front of others are read as a piece. -/
def Reads (written behind : List UInt8) (offset : Nat) (piece : TemplatePiece) : Prop :=
  ∃ first inside, written ++ behind = first :: inside ∧
    read offset first inside = .ok (piece, behind)

/-- A text is read as the opening tag of a box with the given attributes, whatever follows it. -/
def ReadsAsBox (text : String) (attributes : List TemplateAttribute) (selfClosing : Bool) : Prop :=
  ∀ offset behind, ∃ first inside, bytes text ++ behind = first :: inside ∧
    read offset first inside = .ok (.opening ⟨"div", attributes, selfClosing,
      ⟨offset, offset + (bytes text).length⟩⟩, behind)

set_option maxRecDepth 20000 in
theorem ne_of_isLetter : ∀ b : UInt8, isLetter b → b ≠ charByte '!' ∧ b ≠ charByte '/' :=
  forall_byte (by decide)

/-- An opening tag is read as what follows its name. -/
theorem read_named {tag : String} (begins : (bytes tag).head?.any isLetter)
    (named : ∀ b ∈ bytes tag, isTagByte b) (offset : Nat) {rest : List UInt8}
    (nameless : rest.takeWhile isTagByte = []) :
    read offset (charByte '<') (bytes tag ++ rest) =
      match tagRest? rest with
      | some more => .ok (.opening ⟨tag, more.attributes, more.slash || isVoid tag,
          ⟨offset, offset + 1 + ((bytes tag ++ rest).length - more.behind.length)⟩⟩, more.behind)
      | none => .error ⟨.unterminatedTag tag, offset⟩ := by
  have behind_name : rest.dropWhile isTagByte = rest := by
    conv_rhs => rw [← List.takeWhile_append_dropWhile (p := isTagByte) (l := rest), nameless]
    rfl
  have name_eq : spelled (bytes tag) = tag := by
    rw [spelled, bytes, decode_encode, String.ofList_toList]
  have opening : read offset (charByte '<') (bytes tag ++ rest) =
      readOpening offset (bytes tag ++ rest) := by
    cases bytes_eq : bytes tag with
    | nil => simp [bytes_eq] at begins
    | cons b name =>
        have letter : isLetter b := by simpa [bytes_eq] using begins
        obtain ⟨not_comment, not_closing⟩ := ne_of_isLetter b letter
        have no_comment : ¬(encode ['<', '!', '-', '-']).isPrefixOf
            (charByte '<' :: (b :: name ++ rest)) := by
          rw [List.isPrefixOf_iff_prefix]
          rintro ⟨inside, same⟩
          exact not_comment (List.cons.inj (List.cons.inj same).2).1.symm
        rw [read, if_neg no_comment, if_neg (by simpa using not_closing),
          if_pos (by simpa using letter)]
  have rest_eq : tagRest? ((bytes tag ++ rest).dropWhile isTagByte) = tagRest? rest := by
    rw [List.dropWhile_append_of_pos named, behind_name]
  have tag_eq : spelled ((bytes tag ++ rest).takeWhile isTagByte) = tag := by
    rw [List.takeWhile_append_of_pos named, nameless, List.append_nil, name_eq]
  cases found : tagRest? rest <;> simp only [opening, readOpening, rest_eq, tag_eq, found]

/-- The opening tag of a box is read as what follows its name. -/
theorem read_box (offset : Nat) {rest : List UInt8} (nameless : rest.takeWhile isTagByte = []) :
    read offset (charByte '<') (bytes "div" ++ rest) =
      match tagRest? rest with
      | some more => .ok (.opening ⟨"div", more.attributes, more.slash,
          ⟨offset, offset + 1 + ((bytes "div" ++ rest).length - more.behind.length)⟩⟩, more.behind)
      | none => .error ⟨.unterminatedTag "div", offset⟩ := by
  have filled : isVoid "div" = false := rfl
  rw [read_named rfl (List.all_eq_true.mp rfl) offset nameless]
  simp only [filled, Bool.or_false]

theorem tagRest?_ending (selfClosing : Bool) (behind : List UInt8) :
    tagRest? (bytes (if selfClosing then "/>" else ">") ++ behind) =
      some ⟨[], selfClosing, behind⟩ := by
  cases selfClosing <;> (rw [tagRest?]; rfl)

variable (attributes : List QuotedAttribute) (selfClosing : Bool) (behind : List UInt8)

theorem bytes_boxText :
    bytes (QuotedAttribute.boxText attributes selfClosing) ++ behind =
      charByte '<' :: (bytes "div" ++ (bytes (QuotedAttribute.text attributes) ++
        (bytes (if selfClosing then "/>" else ">") ++ behind))) := by
  simp only [QuotedAttribute.boxText, bytes_append, List.append_assoc]
  rfl

theorem nameless_boxText :
    (bytes (QuotedAttribute.text attributes) ++
      (bytes (if selfClosing then "/>" else ">") ++ behind)).takeWhile isTagByte = [] := by
  cases attributes with
  | nil => cases selfClosing <;> rfl
  | cons attr attributes =>
      rw [QuotedAttribute.bytes_text]
      rfl

variable {attributes selfClosing}

/-- A box with no quotes in the values of its attributes is read back. -/
theorem readsAsBox_boxText (named : ∀ attr ∈ attributes, attr.isNamed)
    (plain : ∀ attr ∈ attributes, attr.Plain) :
    ReadsAsBox (QuotedAttribute.boxText attributes selfClosing)
      (attributes.map QuotedAttribute.meant) selfClosing := by
  intro offset behind
  refine ⟨_, _, bytes_boxText attributes selfClosing behind, ?_⟩
  have lengths := congrArg List.length (bytes_boxText attributes selfClosing behind)
  rw [read_box offset (nameless_boxText attributes selfClosing behind), tagRest?_text named plain,
    tagRest?_ending]
  simp only [Option.map_some, List.append_nil, Except.ok.injEq, Prod.mk.injEq, opening.injEq,
    OpeningTag.mk.injEq, Span.mk.injEq, true_and, and_true]
  simp only [List.length_append, List.length_cons] at lengths ⊢
  omega

/-- What a box is read with is read behind its name. -/
theorem tagRest?_of_readsAsBox {written : List TemplateAttribute}
    (reads : ReadsAsBox (QuotedAttribute.boxText attributes selfClosing) written selfClosing) :
    ∃ behind more, tagRest? (bytes (QuotedAttribute.text attributes) ++ behind) = some more ∧
      written = more.attributes := by
  obtain ⟨first, inside, bytes_eq, found⟩ := reads 0 []
  rw [bytes_boxText] at bytes_eq
  obtain ⟨rfl, rfl⟩ := List.cons.inj bytes_eq
  rw [read_box 0 (nameless_boxText attributes selfClosing [])] at found
  split at found
  · rename_i more more_eq
    simp only [Except.ok.injEq, Prod.mk.injEq, opening.injEq, OpeningTag.mk.injEq] at found
    exact ⟨_, more, more_eq, found.1.2.1.symm⟩
  · cases found

/-- If a box is read back, up to quotes that are turned back, its values have no quotes. -/
theorem plain_of_readsAsBox {written : List TemplateAttribute}
    (named : ∀ attr ∈ attributes, attr.isNamed)
    (reads : ReadsAsBox (QuotedAttribute.boxText attributes selfClosing) written selfClosing)
    (same : written.map TemplateAttribute.unescaped =
      attributes.map fun attr => attr.meant.unescaped) :
    ∀ attr ∈ attributes, attr.Plain := by
  obtain ⟨behind, more, more_eq, rfl⟩ := tagRest?_of_readsAsBox reads
  exact plain_of_tagRest? named more_eq (same.trans (List.append_nil _).symm)

end TemplatePiece

end IslandSlots
