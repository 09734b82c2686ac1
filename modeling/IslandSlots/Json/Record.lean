import IslandSlots.Json.Value

/-!
# Records in JSON

A record is written as an object, whose unknown members are ignored and in which no known member
may come twice, or as the array of its fields in their order, in which the last ones may be left
out. What a left-out field means is for the reader of the field to say.
-/

namespace IslandSlots.Json

/-- The text of a string. -/
def text? : Json → Option String
  | .string text => some text
  | _ => none

/-- A truth value. -/
def bool? : Json → Option Bool
  | .bool value => some value
  | _ => none

/-- The items of an array. -/
def items? : Json → Option (List Json)
  | .array items => some items
  | _ => none

/-- The texts of an array of strings. -/
def texts? (value : Json) : Option (List String) := do
  (← value.items?).mapM text?

/-- The values of the members with the given name. -/
def named (name : String) (members : List (String × Json)) : List Json :=
  members.filterMap fun (key, value) => if key = name then some value else none

/-- The values of the fields of a record, in the order of the names: `none` for a field that is
left out. -/
def fields? (names : List String) : Json → Option (List (Option Json))
  | .object members =>
    names.mapM fun name =>
      match named name members with
      | [] => some none
      | [value] => some (some value)
      | _ => none
  | .array items =>
    if items.length ≤ names.length then
      some (items.map some ++ List.replicate (names.length - items.length) none)
    else none
  | _ => none

/-- Reads a field that has a default. -/
def orDefault {α : Type} (read : Json → Option α) (default : α) : Option Json → Option α
  | some value => read value
  | none => some default

/-- Reads a field that has to be there. -/
def required {α : Type} (read : Json → Option α) (field : Option Json) : Option α :=
  field.bind read

end IslandSlots.Json
