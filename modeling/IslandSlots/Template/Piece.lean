import IslandSlots.Template.Attribute

/-!
# Pieces of a template

A template as the run of its tags, comments, interpolations and texts. Every piece takes some
bytes and the next one begins where it ends, so a place is a number of bytes from the start of the
file. Reading stops at the first piece that has no end. A text goes on to the next tag, comment or
interpolation, and a `<` that begins none of them is part of a text.
-/

namespace IslandSlots

/-- A piece of a template. -/
inductive TemplatePiece where
  /-- An opening tag. -/
  | opening (tag : OpeningTag)
  /-- A closing tag. -/
  | closing (tag : String) (span : Span)
  /-- Text. -/
  | text (content : String)
  /-- An expression whose value is shown. -/
  | interpolation (expression : String)
  /-- A comment. -/
  | comment (body : String)
  deriving DecidableEq, Repr

namespace TemplatePiece

open Text

/-- Elements that have no content and no closing tag, whatever the case of their letters. -/
def voidTags : List String :=
  ["area", "base", "br", "col", "embed", "hr", "img", "input", "link", "meta", "source", "track",
    "wbr"]

/-- Whether an element has no content and no closing tag. -/
def isVoid (tag : String) : Bool :=
  voidTags.contains (String.ofList (tag.toList.map Char.toLower))

/-- Whether a byte may stand in the name of an element. -/
def isTagByte (b : UInt8) : Bool :=
  let c := byteChar b
  c.isAlphanum || c == '_' || c == '-' || c == '.' || c == ':'

/-- Whether a byte is an ASCII letter. -/
def isLetter (b : UInt8) : Bool :=
  (byteChar b).isAlpha

/-- The string that bytes spell. -/
def spelled (bytes : List UInt8) : String :=
  String.ofList (decode bytes)

/-- What follows the name in an opening tag. -/
structure TagRest where
  /-- The attributes in order. -/
  attributes : List TemplateAttribute
  /-- Whether the tag ends in `/>`. -/
  slash : Bool
  /-- The bytes after the tag. -/
  behind : List UInt8

/-- The rest of an opening tag after its name. A byte that begins no attribute is passed over. -/
def tagRest? (bytes : List UInt8) : Option TagRest :=
  match _blanks : bytes.dropWhile isBlankByte with
  | [] => none
  | b :: rest =>
    if b == charByte '>' then some ⟨[], false, rest⟩
    else if b == charByte '/' then
      let spaced := rest.dropWhile isBlankByte
      if spaced.head? = some (charByte '>') then some ⟨[], true, spaced.drop 1⟩
      else tagRest? spaced
    else
      match _found : TemplateAttribute.read? (b :: rest) with
      | some (attr, rest) =>
        (tagRest? rest).map fun more => { more with attributes := attr :: more.attributes }
      | none => tagRest? rest
termination_by bytes.length
decreasing_by
  all_goals
    have shorter := (List.dropWhile_sublist isBlankByte (l := bytes)).length_le
    rw [_blanks, List.length_cons] at shorter
  · have inner := (List.dropWhile_sublist isBlankByte (l := rest)).length_le
    omega
  · have inner := TemplateAttribute.length_of_read? _found
    rw [List.length_cons] at inner
    omega
  · omega

/-- Whether a tag, a comment or an interpolation may begin here. -/
def beginsMarkup : List UInt8 → Bool
  | b :: next :: _ =>
    (b == charByte '<' && (next == charByte '/' || next == charByte '!' || isLetter next)) ||
      (b == charByte '\x7b' && next == charByte '\x7b')
  | _ => false

/-- The bytes before the next place where markup may begin. -/
def textRun : List UInt8 → List UInt8
  | [] => []
  | b :: rest => if beginsMarkup (b :: rest) then [] else b :: textRun rest

/-- The content of a text node: blanks alone count as one space. -/
def textContent (written : String) : String :=
  if allBlank written then " " else written

/-- A comment, given the bytes after its opening. -/
def readComment (offset : Nat) (bytes : List UInt8) :
    Except TemplateError (TemplatePiece × List UInt8) :=
  match splitFirst? (encode ['-', '-', '>']) bytes with
  | some (body, rest) => .ok (.comment (spelled body), rest)
  | none => .error ⟨.unterminatedComment, offset⟩

/-- An interpolation, given the bytes after its opening. -/
def readInterpolation (offset : Nat) (bytes : List UInt8) :
    Except TemplateError (TemplatePiece × List UInt8) :=
  match splitFirst? (encode ['\x7d', '\x7d']) bytes with
  | some (expression, rest) => .ok (.interpolation (trimmed (spelled expression)), rest)
  | none => .error ⟨.unterminatedInterpolation, offset⟩

/-- A closing tag, given the bytes after its `</`. -/
def readClosing (offset : Nat) (bytes : List UInt8) :
    Except TemplateError (TemplatePiece × List UInt8) :=
  let tag := spelled (bytes.takeWhile isTagByte)
  let behind := (bytes.dropWhile isTagByte).dropWhile isBlankByte
  let place := offset + 2 + (bytes.length - behind.length)
  match behind with
  | b :: rest =>
    if b == charByte '>' then .ok (.closing tag ⟨offset, place + 1⟩, rest)
    else .error ⟨.unterminatedClosingTag tag, place⟩
  | [] => .error ⟨.unterminatedClosingTag tag, place⟩

/-- An opening tag, given the bytes after its `<`. -/
def readOpening (offset : Nat) (bytes : List UInt8) :
    Except TemplateError (TemplatePiece × List UInt8) :=
  let tag := spelled (bytes.takeWhile isTagByte)
  match tagRest? (bytes.dropWhile isTagByte) with
  | some rest =>
    let span := ⟨offset, offset + 1 + (bytes.length - rest.behind.length)⟩
    .ok (.opening ⟨tag, rest.attributes, rest.slash || isVoid tag, span⟩, rest.behind)
  | none => .error ⟨.unterminatedTag tag, offset⟩

/-- A text that has at least the given first byte. -/
def readText (first : UInt8) (bytes : List UInt8) : TemplatePiece × List UInt8 :=
  let run := textRun bytes
  (.text (textContent (spelled (first :: run))), bytes.drop run.length)

/-- The piece that begins with the given byte, and what follows it. -/
def read (offset : Nat) (first : UInt8) (bytes : List UInt8) :
    Except TemplateError (TemplatePiece × List UInt8) :=
  if (encode ['<', '!', '-', '-']).isPrefixOf (first :: bytes) then
    readComment offset (bytes.drop 3)
  else if first == charByte '<' && bytes.head? = some (charByte '/') then
    readClosing offset (bytes.drop 1)
  else if first == charByte '<' && bytes.head?.any isLetter then readOpening offset bytes
  else if first == charByte '\x7b' && bytes.head? = some (charByte '\x7b') then
    readInterpolation offset (bytes.drop 1)
  else .ok (readText first bytes)

theorem length_of_tagRest? {bytes : List UInt8} {rest : TagRest}
    (found : tagRest? bytes = some rest) : rest.behind.length < bytes.length := by
  fun_induction tagRest? bytes generalizing rest with
  | case1 => simp at found
  | case2 bytes b behind blanks =>
    have shorter := (List.dropWhile_sublist isBlankByte (l := bytes)).length_le
    rw [blanks, List.length_cons] at shorter
    simp only [Option.some.injEq] at found
    subst found
    exact shorter
  | case3 bytes b behind blanks _ _ spaced =>
    have shorter := (List.dropWhile_sublist isBlankByte (l := bytes)).length_le
    have inner := (List.dropWhile_sublist isBlankByte (l := behind)).length_le
    rw [blanks, List.length_cons] at shorter
    simp only [Option.some.injEq] at found
    subst found
    simp only [List.length_drop, spaced]
    omega
  | case4 bytes b behind blanks _ _ spaced =>
    rename_i induction
    have shorter := (List.dropWhile_sublist isBlankByte (l := bytes)).length_le
    have inner := (List.dropWhile_sublist isBlankByte (l := behind)).length_le
    rw [blanks, List.length_cons] at shorter
    have smaller := induction found
    simp only [spaced] at smaller
    omega
  | case5 bytes b behind blanks _ _ attr after attribute_eq induction =>
    have shorter := (List.dropWhile_sublist isBlankByte (l := bytes)).length_le
    have inner := TemplateAttribute.length_of_read? attribute_eq
    rw [blanks, List.length_cons] at shorter
    rw [List.length_cons] at inner
    obtain ⟨more, more_eq, rfl⟩ := Option.map_eq_some_iff.1 found
    have smaller := induction more_eq
    simp only
    omega
  | case6 bytes b behind blanks _ _ _ induction =>
    have shorter := (List.dropWhile_sublist isBlankByte (l := bytes)).length_le
    rw [blanks, List.length_cons] at shorter
    have smaller := induction found
    omega

theorem length_of_splitFirst? {mark text before after : List UInt8}
    (found : splitFirst? mark text = some (before, after)) : after.length ≤ text.length := by
  have parts := congrArg List.length (eq_of_splitFirst? found)
  simp only [List.length_append] at parts
  omega

/-- A piece takes its first byte at least. -/
theorem length_of_read {offset : Nat} {first : UInt8} {bytes rest : List UInt8}
    {piece : TemplatePiece} (found : read offset first bytes = .ok (piece, rest)) :
    rest.length ≤ bytes.length := by
  simp only [read] at found
  split at found
  · simp only [readComment] at found
    split at found
    · rename_i body behind splits
      have shorter := length_of_splitFirst? splits
      simp only [Except.ok.injEq, Prod.mk.injEq] at found
      rw [List.length_drop] at shorter
      rw [← found.2]
      omega
    · simp at found
  · split at found
    · have names := (List.dropWhile_sublist isTagByte (l := bytes.drop 1)).length_le
      have blanks := (List.dropWhile_sublist isBlankByte
        (l := (bytes.drop 1).dropWhile isTagByte)).length_le
      rw [List.length_drop] at names
      simp only [readClosing] at found
      split at found
      · rename_i b behind starts
        rw [starts, List.length_cons] at blanks
        split at found
        · simp only [Except.ok.injEq, Prod.mk.injEq] at found
          rw [← found.2]
          omega
        · simp at found
      · simp at found
    · split at found
      · simp only [readOpening] at found
        split at found
        · rename_i behind rest_eq
          have names := (List.dropWhile_sublist isTagByte (l := bytes)).length_le
          have shorter := length_of_tagRest? rest_eq
          simp only [Except.ok.injEq, Prod.mk.injEq] at found
          rw [← found.2]
          omega
        · simp at found
      · split at found
        · simp only [readInterpolation] at found
          split at found
          · rename_i body behind splits
            have shorter := length_of_splitFirst? splits
            simp only [Except.ok.injEq, Prod.mk.injEq] at found
            rw [List.length_drop] at shorter
            rw [← found.2]
            omega
          · simp at found
        · simp only [readText, Except.ok.injEq, Prod.mk.injEq] at found
          rw [← found.2, List.length_drop]
          omega

/-- The pieces of some bytes that have `offset` bytes before them, up to the first that has no
end, and what is wrong with that one. -/
def all (offset : Nat) (bytes : List UInt8) : List TemplatePiece × Option TemplateError :=
  match bytes with
  | [] => ([], none)
  | first :: bytes =>
    match _found : read offset first bytes with
    | .ok (piece, rest) =>
      let (pieces, error) := all (offset + 1 + (bytes.length - rest.length)) rest
      (piece :: pieces, error)
    | .error error => ([], some error)
termination_by bytes.length
decreasing_by exact Nat.lt_succ_of_le (length_of_read _found)

end TemplatePiece

end IslandSlots
