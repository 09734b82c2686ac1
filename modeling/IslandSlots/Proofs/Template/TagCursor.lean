import IslandSlots.Proofs.Template.RoundTrip
import IslandSlots.Proofs.Text.Cursor

/-!
# Reading a tag with a cursor

The attributes and the end of an opening tag, read byte by byte with a cursor. No step is stopped,
whatever is in front of the cursor: it stays in the text, a byte that is no part of an attribute is
passed over, and so every loop ends. What is read is what the tag says.
-/

namespace IslandSlots

open Text

namespace Cursor

/-! ## Attributes -/

/-- Whether a byte is a quote. -/
def isQuote (b : UInt8) : Bool :=
  b == charByte '"' || b == charByte '\''

section Attributes

variable (text : List Char) (place : Nat)

/-- A value in quotes, and the place behind it. -/
def readQuoted : Unstopped (Option (List UInt8) × Nat) := do
  match ← peek text place with
  | none => return (none, place)
  | some quote =>
    if isQuote quote then
      let stop ← pass text (· != quote) (place + 1)
      let value ← bytesBetween text (place + 1) stop
      return (some value, if stop < size text then stop + 1 else stop)
    else return (none, place)

/-- A value without quotes, and the place behind it. -/
def readUnquoted : Unstopped (Option (List UInt8) × Nat) := do
  let stop ← pass text TemplateAttribute.isValueByte place
  if place < stop then return (some (← bytesBetween text place stop), stop)
  else return (none, stop)

/-- A value, and the place behind it. -/
def readValue : Unstopped (Option (List UInt8) × Nat) := do
  match ← readQuoted text place with
  | (some value, next) => return (some value, next)
  | (none, next) => readUnquoted text next

/-- The value of an attribute, and the place behind it. -/
def readAssignment : Unstopped (Option (List UInt8) × Nat) := do
  let solid ← pass text isBlankByte place
  if (← peek text solid) = some (charByte '=') then
    readValue text (← pass text isBlankByte (solid + 1))
  else return (none, place)

/-- An attribute, and the place behind it. -/
def readAttribute : Unstopped (Option TemplateAttribute × Nat) := do
  let behind ← pass text TemplateAttribute.isNameByte place
  if behind = place then return (none, place)
  else
    let name ← bytesBetween text place behind
    let (value, next) ← readAssignment text behind
    return (some (TemplateAttribute.ofWritten name value), next)

end Attributes

section AttributesRead

variable {text : List Char} {rest : List UInt8}

theorem readQuoted_cons {quote : UInt8} (quotes : isQuote quote)
    (here : quote :: rest <:+ encode text) :
    readQuoted text (placeOf text (quote :: rest)) = .ok (some (rest.takeWhile (· != quote)),
      placeOf text ((rest.dropWhile (· != quote)).drop 1)) := by
  have inside := tail_suffix here
  rw [readQuoted, peek_placeOf here]
  simp only [List.head?_cons, ok_bind, quotes, if_true, ← placeOf_cons here,
    pass_placeOf _ inside, bytesBetween_pass _ inside, pure_eq_ok]
  have closing := dropWhile_suffix (· != quote) inside
  cases behind_eq : rest.dropWhile (· != quote) with
  | nil =>
      rw [placeOf_nil, if_neg (Nat.lt_irrefl _)]
      rfl
  | cons b behind =>
      rw [behind_eq] at closing
      rw [if_pos ((placeOf_lt_iff closing).mpr (List.cons_ne_nil b behind)), ← placeOf_cons closing]
      rfl

theorem readQuoted_other (here : rest <:+ encode text) (other : ¬rest.head?.any isQuote) :
    readQuoted text (placeOf text rest) = .ok (none, placeOf text rest) := by
  rw [readQuoted, peek_placeOf here]
  cases rest with
  | nil => rfl
  | cons b rest =>
      rw [List.head?_cons, Option.any_some] at other
      simp only [List.head?_cons, ok_bind, if_neg other, pure_eq_ok]

theorem readUnquoted_placeOf (here : rest <:+ encode text) :
    readUnquoted text (placeOf text rest) =
      .ok (if rest.head?.any TemplateAttribute.isValueByte then
          some (rest.takeWhile TemplateAttribute.isValueByte) else none,
        placeOf text (rest.dropWhile TemplateAttribute.isValueByte)) := by
  have moved := placeOf_dropWhile TemplateAttribute.isValueByte here
  simp only [readUnquoted, pass_placeOf _ here, bytesBetween_pass _ here, ok_bind, pure_eq_ok]
  cases rest with
  | nil => exact if_neg (Nat.lt_irrefl _)
  | cons b rest =>
      rw [List.head?_cons, Option.any_some]
      by_cases fits : TemplateAttribute.isValueByte b
      · rw [List.takeWhile_cons_of_pos fits, List.length_cons] at moved
        rw [if_pos fits, if_pos (by omega)]
      · rw [List.dropWhile_cons_of_neg fits, if_neg fits, if_neg (Nat.lt_irrefl _)]

theorem readValue_quote {quote : UInt8} (quotes : isQuote quote) (rest : List UInt8) :
    TemplateAttribute.readValue (quote :: rest) =
      (some (rest.takeWhile (· != quote)), (rest.dropWhile (· != quote)).drop 1) :=
  if_pos quotes

theorem readValue_other {b : UInt8} (other : ¬isQuote b) (rest : List UInt8) :
    TemplateAttribute.readValue (b :: rest) =
      (if TemplateAttribute.isValueByte b then
        some ((b :: rest).takeWhile TemplateAttribute.isValueByte) else none,
        (b :: rest).dropWhile TemplateAttribute.isValueByte) := by
  refine (if_neg other).trans ?_
  by_cases fits : TemplateAttribute.isValueByte b
  · rw [if_pos fits, if_pos fits, List.takeWhile_cons_of_pos fits, List.dropWhile_cons_of_pos fits]
  · rw [if_neg fits, if_neg fits, List.dropWhile_cons_of_neg fits]

theorem readValue_placeOf (here : rest <:+ encode text) :
    readValue text (placeOf text rest) = .ok ((TemplateAttribute.readValue rest).1,
      placeOf text (TemplateAttribute.readValue rest).2) := by
  rw [readValue]
  by_cases quoted : rest.head?.any isQuote
  · obtain ⟨quote, head, quotes⟩ := (Option.any_eq_true _ _).mp quoted
    obtain ⟨rest, rfl⟩ := List.head?_eq_some_iff.mp head
    rw [readQuoted_cons quotes here, readValue_quote quotes]
    rfl
  · simp only [readQuoted_other here quoted, ok_bind, readUnquoted_placeOf here]
    cases rest with
    | nil => rfl
    | cons b rest =>
        rw [readValue_other quoted]
        rfl

theorem readAssignment_placeOf (here : rest <:+ encode text) :
    readAssignment text (placeOf text rest) = .ok ((TemplateAttribute.readAssignment rest).1,
      placeOf text (TemplateAttribute.readAssignment rest).2) := by
  have solid := dropWhile_suffix isBlankByte here
  rw [readAssignment, TemplateAttribute.readAssignment, pass_placeOf _ here, ok_bind,
    peek_placeOf solid]
  cases starts : rest.dropWhile isBlankByte with
  | nil => rfl
  | cons b behind =>
      rw [starts] at solid
      simp only [List.head?_cons, ok_bind, Option.some.injEq, beq_iff_eq]
      split
      · have inside := tail_suffix solid
        rw [← placeOf_cons solid, pass_placeOf _ inside, ok_bind,
          readValue_placeOf (dropWhile_suffix _ inside)]
      · rfl

theorem readAttribute_placeOf (here : rest <:+ encode text) :
    readAttribute text (placeOf text rest) = .ok (match TemplateAttribute.read? rest with
      | some (attr, behind) => (some attr, placeOf text behind)
      | none => (none, placeOf text rest)) := by
  have moved := placeOf_dropWhile TemplateAttribute.isNameByte here
  rw [readAttribute, TemplateAttribute.read?, pass_placeOf _ here, ok_bind, bytesBetween_pass _ here]
  by_cases named : (rest.takeWhile TemplateAttribute.isNameByte).isEmpty
  · rw [List.isEmpty_iff.mp named, List.length_nil] at moved
    rw [if_pos (by omega), if_pos named]
    rfl
  · have filled := List.length_pos_iff.mpr (mt List.isEmpty_iff.mpr named)
    rw [if_neg (by omega), if_neg named, ok_bind,
      readAssignment_placeOf (dropWhile_suffix _ here)]
    rfl

end AttributesRead

/-! ## Opening tags -/

/-- What an opening tag ends with: its attributes, whether there is a slash, and the place behind
it. -/
abbrev TagEnd := List TemplateAttribute × Bool × Nat

/-- A round in an opening tag goes on behind a place with attributes, or ends it or the text. -/
abbrev TagRound := (Nat × List TemplateAttribute) ⊕ Option TagEnd

section Tag

variable (text : List Char) (place : Nat) (attributes : List TemplateAttribute)

/-- Behind a slash the tag ends, or goes on behind the white space. -/
def slashStep : Unstopped TagRound := do
  let next ← pass text isBlankByte place
  if (← peek text next) = some (charByte '>') then return .inr (some (attributes, true, next + 1))
  else return .inl (next, attributes)

/-- An attribute is taken in. A byte that begins none is passed over. -/
def attributeStep : Unstopped TagRound := do
  match ← readAttribute text place with
  | (some attr, next) => return .inl (next, attributes ++ [attr])
  | (none, next) => return .inl (next + 1, attributes)

/-- One round in an opening tag: white space, and then a slash, the end or an attribute. -/
def tagStep : Unstopped TagRound := do
  if place < size text then
    let solid ← pass text isBlankByte place
    match ← peek text solid with
    | none => return .inr none
    | some b =>
      if b == charByte '/' then slashStep text (solid + 1) attributes
      else if b == charByte '>' then return .inr (some (attributes, false, solid + 1))
      else attributeStep text solid attributes
  else return .inr none

/-- An opening tag is read from behind its name on. -/
def tagRest? : Unstopped (Option TagEnd) :=
  loop text (fun (place, attributes) => tagStep text place attributes) (place, [])

end Tag

section TagRead

variable {text : List Char} {rest behind : List UInt8}

/-- What the rest of a tag says behind attributes that are already read. -/
def tagEnd (text : List Char) (rest : List UInt8) (attributes : List TemplateAttribute) :
    Option TagEnd :=
  (TemplatePiece.tagRest? rest).map fun found =>
    (attributes ++ found.attributes, found.slash, placeOf text found.behind)

/-- A round in a tag makes progress. -/
abbrev TagProgress (text : List Char) : List UInt8 → List TemplateAttribute →
    Unstopped TagRound → Prop :=
  Progress (fun rest attributes => (placeOf text rest, attributes)) (tagEnd text)
    (· <:+ encode text)

theorem tagEnd_of_blank (blank : rest.dropWhile isBlankByte = [])
    (attributes : List TemplateAttribute) : tagEnd text rest attributes = none := by
  rw [tagEnd, TemplatePiece.tagRest?]
  split
  · rfl
  · rename_i solid
    rw [blank] at solid
    cases solid

theorem slashStep_progress (starts : rest.dropWhile isBlankByte = charByte '/' :: behind)
    (here : behind <:+ encode text) (less : behind.length < rest.length)
    (attributes : List TemplateAttribute) :
    TagProgress text rest attributes (slashStep text (placeOf text behind) attributes) := by
  have spaced := dropWhile_suffix isBlankByte here
  have ends := TemplatePiece.tagRest?_of_dropWhile starts
  rw [if_neg (by decide), if_pos (by decide)] at ends
  rw [slashStep, pass_placeOf _ here, ok_bind, peek_placeOf spaced, ok_bind]
  split
  · rename_i closes
    obtain ⟨after, spaced_eq⟩ := List.head?_eq_some_iff.mp closes
    rw [if_pos closes, spaced_eq] at ends
    rw [spaced_eq] at spaced
    refine .inl ?_
    rw [tagEnd, ends, spaced_eq, ← placeOf_cons spaced]
    simp
  · rename_i goes_on
    rw [if_neg goes_on] at ends
    have shorter := (List.dropWhile_suffix isBlankByte (l := behind)).length_le
    exact .inr ⟨_, _, rfl, spaced, Nat.lt_of_le_of_lt shorter less, by rw [tagEnd, tagEnd, ends]⟩

theorem attributeStep_progress {b : UInt8} (starts : rest.dropWhile isBlankByte = b :: behind)
    (other : ¬b == charByte '>' ∧ ¬b == charByte '/') (here : b :: behind <:+ encode text)
    (less : behind.length < rest.length) (attributes : List TemplateAttribute) :
    TagProgress text rest attributes
      (attributeStep text (placeOf text (b :: behind)) attributes) := by
  have ends := TemplatePiece.tagRest?_of_dropWhile starts
  rw [if_neg other.1, if_neg other.2] at ends
  rw [attributeStep, readAttribute_placeOf here]
  cases read : TemplateAttribute.read? (b :: behind) with
  | none =>
      rw [read] at ends
      refine .inr ⟨behind, attributes, by simp [placeOf_cons here], tail_suffix here, less, ?_⟩
      rw [tagEnd, tagEnd, ends]
  | some found =>
      obtain ⟨attr, after⟩ := found
      rw [read] at ends
      have further := TemplateAttribute.suffix_of_read? read
      have shorter := TemplateAttribute.length_of_read? read
      rw [List.length_cons] at shorter
      refine .inr ⟨after, attributes ++ [attr], rfl, further.trans here, by omega, ?_⟩
      rw [tagEnd, tagEnd, ends]
      simp [Function.comp_def]

theorem tagStep_progress (here : rest <:+ encode text) (attributes : List TemplateAttribute) :
    TagProgress text rest attributes (tagStep text (placeOf text rest) attributes) := by
  have lt_iff := placeOf_lt_iff here
  rw [tagStep]
  cases starts : rest.dropWhile isBlankByte with
  | nil =>
      refine .inl ?_
      rw [tagEnd_of_blank starts]
      split
      · rw [pass_placeOf _ here, ok_bind, starts, peek_placeOf List.nil_suffix]
        rfl
      · rfl
  | cons b behind =>
      have inner : b :: behind <:+ rest := starts ▸ List.dropWhile_suffix _
      have less : behind.length < rest.length := inner.length_le
      have solid := inner.trans here
      have filled : rest ≠ [] := by
        rintro rfl
        cases starts
      rw [if_pos (lt_iff.mpr filled), pass_placeOf _ here, ok_bind, starts, peek_placeOf solid]
      simp only [List.head?_cons, ok_bind, ← placeOf_cons solid]
      split
      · rename_i slash
        obtain rfl := eq_of_beq slash
        exact slashStep_progress starts (tail_suffix solid) less attributes
      · rename_i bare
        split
        · rename_i closes
          have ends := TemplatePiece.tagRest?_of_dropWhile starts
          rw [if_pos closes] at ends
          refine .inl ?_
          rw [tagEnd, ends]
          simp
        · rename_i other
          exact attributeStep_progress starts ⟨other, bare⟩ solid less attributes

theorem tagRest?_placeOf (here : rest <:+ encode text) :
    tagRest? text (placeOf text rest) = .ok (tagEnd text rest []) :=
  @loop_eq _ _ _ _ (fun rest attributes => (placeOf text rest, attributes)) (tagEnd text)
    (· <:+ encode text) text (fun _ attributes here => tagStep_progress here attributes) rest []
    here here

end TagRead

end Cursor

end IslandSlots
