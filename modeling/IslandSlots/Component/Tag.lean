import IslandSlots.Text.Search

/-!
# Tags of blocks

The tags that begin and end the top-level blocks of a component file. An opening tag is the name
of the block, attributes with white space before each, and a `>`; a value is always quoted. A
closing tag has nothing but white space after the name.
-/

namespace IslandSlots

/-- An attribute of a block. -/
structure BlockAttribute where
  /-- The name. -/
  name : String
  /-- The text between the quotes, if there is a value. -/
  value : Option String
  deriving DecidableEq, Repr

namespace BlockTag

/-- Whether a character may stand between the parts of a tag. -/
def isSpace (c : Char) : Bool :=
  c == ' ' || c == '\t' || c == '\r' || c == '\n'

/-- Whether a character may stand in the name of an attribute. -/
def isNameChar (c : Char) : Bool :=
  c.isAlphanum || c == '-' || c == '_' || c == ':' || c == '@' || c == '#' || c == '.'

/-- A text after its leading white space. -/
def skipSpace (text : List Char) : List Char :=
  text.dropWhile isSpace

theorem length_skipSpace_le (text : List Char) : (skipSpace text).length ≤ text.length :=
  (List.dropWhile_sublist isSpace).length_le

/-- A quoted text, and what follows it. -/
def quoted? : List Char → Option (List Char × List Char)
  | '"' :: rest => Text.splitFirst? ['"'] rest
  | '\'' :: rest => Text.splitFirst? ['\''] rest
  | _ => none

/-- The place of a value, after an equals sign with white space around it. -/
def valuePlace? (text : List Char) : Option (List Char) :=
  (Text.after? ['='] (skipSpace text)).map skipSpace

/-- The value after the name of an attribute, and what follows it. -/
def value? (text : List Char) : Option (List Char × List Char) :=
  valuePlace? text >>= quoted?

/-- An attribute with white space before it, and what follows it. -/
def attribute? : List Char → Option (BlockAttribute × List Char)
  | [] => none
  | c :: text =>
    let named := skipSpace text
    let name := named.takeWhile isNameChar
    let behind := named.dropWhile isNameChar
    if !isSpace c || name.isEmpty then none
    else match value? behind with
      | some (value, rest) => some (⟨String.ofList name, some (String.ofList value)⟩, rest)
      | none => some (⟨String.ofList name, none⟩, behind)

theorem length_of_quoted? {text value rest : List Char} (found : quoted? text = some (value, rest)) :
    rest.length < text.length := by
  simp only [quoted?] at found
  split at found
  · simp [Text.eq_of_splitFirst? found]
    omega
  · simp [Text.eq_of_splitFirst? found]
    omega
  · simp at found

theorem length_of_value? {text value rest : List Char} (found : value? text = some (value, rest)) :
    rest.length < text.length := by
  simp only [value?, valuePlace?, Option.bind_eq_bind, Option.bind_eq_some_iff,
    Option.map_eq_some_iff] at found
  obtain ⟨_, ⟨place, place_eq, rfl⟩, quote⟩ := found
  have shorter := length_of_quoted? quote
  have parts := congrArg List.length (Text.eq_of_after? place_eq)
  have spaces := length_skipSpace_le place
  have spaces' := length_skipSpace_le text
  simp at parts
  omega

theorem length_of_attribute? {text rest : List Char} {attr : BlockAttribute}
    (found : attribute? text = some (attr, rest)) : rest.length < text.length := by
  cases text with
  | nil => simp [attribute?] at found
  | cons c text =>
    have spaces := length_skipSpace_le text
    have names := (List.dropWhile_sublist isNameChar (l := skipSpace text)).length_le
    simp only [attribute?] at found
    split at found
    · simp at found
    · split at found
      · rename_i value_eq
        have shorter := length_of_value? value_eq
        simp_all only [Option.some.injEq, Prod.mk.injEq, List.length_cons]
        omega
      · simp only [Option.some.injEq, Prod.mk.injEq] at found
        rw [← found.2, List.length_cons]
        omega

/-- The attributes at the front of a text, and what follows them. -/
def attributes (text : List Char) : List BlockAttribute × List Char :=
  match _found : attribute? text with
  | some (attr, rest) => (attr :: (attributes rest).1, (attributes rest).2)
  | none => ([], text)
termination_by text.length
decreasing_by all_goals exact length_of_attribute? _found

/-- An opening tag of the given name: its attributes, and what follows it. -/
def opening? (name : List Char) (text : List Char) : Option (List BlockAttribute × List Char) := do
  let (found, rest) := attributes (← Text.after? ('<' :: name) text)
  return (found, ← Text.after? ['>'] (skipSpace rest))

/-- What follows a closing tag of the given name. -/
def closing? (name : List Char) (text : List Char) : Option (List Char) := do
  Text.after? ['>'] (skipSpace (← Text.after? ('<' :: '/' :: name) text))

theorem length_attributes_le (text : List Char) : (attributes text).2.length ≤ text.length := by
  fun_induction attributes text with
  | case1 text attr rest found induction =>
    have shorter := length_of_attribute? found
    simp only
    omega
  | case2 => simp

theorem length_of_opening? {name text rest : List Char} {found : List BlockAttribute}
    (opens : opening? name text = some (found, rest)) : rest.length < text.length := by
  simp only [opening?, Option.pure_def, Option.bind_eq_bind, Option.bind_eq_some_iff,
    Option.some.injEq, Prod.mk.injEq] at opens
  obtain ⟨behind, starts, inside, ends, _, rfl⟩ := opens
  have parts := congrArg List.length (Text.eq_of_after? starts)
  have parts' := congrArg List.length (Text.eq_of_after? ends)
  have spaces := length_skipSpace_le (attributes behind).2
  have shorter := length_attributes_le behind
  simp at parts parts'
  omega

theorem length_of_closing? {name text rest : List Char} (closes : closing? name text = some rest) :
    rest.length < text.length := by
  simp only [closing?, Option.bind_eq_bind, Option.bind_eq_some_iff] at closes
  obtain ⟨behind, starts, ends⟩ := closes
  have parts := congrArg List.length (Text.eq_of_after? starts)
  have parts' := congrArg List.length (Text.eq_of_after? ends)
  have spaces := length_skipSpace_le behind
  simp at parts parts'
  omega

end BlockTag

end IslandSlots
