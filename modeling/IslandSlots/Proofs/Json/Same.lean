import IslandSlots.Json.Record
import Mathlib.Data.List.Forall2
import Mathlib.Data.List.Nodup

/-!
# JSON as a value

The members of an object have no order: two objects are the same value when each name is in both,
with the same value under it. This tells values apart as it should where no name stands twice in
an object, and then what is read by names does not depend on how the members are arranged.
-/

namespace IslandSlots.Json

/-- Two forms of one value, in which the members of objects are arranged in their own ways. -/
inductive Same : Json → Json → Prop where
  /-- No value. -/
  | null : Same .null .null
  /-- A truth value. -/
  | bool (value : Bool) : Same (.bool value) (.bool value)
  /-- A number. -/
  | number (spelling : String) : Same (.number spelling) (.number spelling)
  /-- A string. -/
  | string (text : String) : Same (.string text) (.string text)
  /-- Arrays of the same values in the same order. -/
  | array {items others : List Json} (items_same : List.Forall₂ Same items others) :
      Same (.array items) (.array others)
  /-- Objects of the same names with the same values. -/
  | object {members others : List (String × Json)}
      (names_perm : (members.map Prod.fst).Perm (others.map Prod.fst))
      (values_same : ∀ name value other, members.lookup name = some value →
        others.lookup name = some other → Same value other) :
      Same (.object members) (.object others)
  /-- A string that spells no text. -/
  | unreadable : Same .unreadable .unreadable

mutual

/-- No name stands twice in an object, here and in every value inside. -/
def HasDistinctNames : Json → Prop
  | .array items => AllHaveDistinctNames items
  | .object members => (members.map Prod.fst).Nodup ∧ MembersHaveDistinctNames members
  | .null | .bool _ | .number _ | .string _ | .unreadable => True

/-- No name stands twice in an object inside one of the values. -/
def AllHaveDistinctNames : List Json → Prop
  | [] => True
  | item :: items => item.HasDistinctNames ∧ AllHaveDistinctNames items

/-- No name stands twice in an object inside the value of one of the members. -/
def MembersHaveDistinctNames : List (String × Json) → Prop
  | [] => True
  | (_, value) :: members => value.HasDistinctNames ∧ MembersHaveDistinctNames members

end

theorem membersHaveDistinctNames_append (front back : List (String × Json)) :
    MembersHaveDistinctNames (front ++ back) ↔
      MembersHaveDistinctNames front ∧ MembersHaveDistinctNames back := by
  induction front with
  | nil => simp [MembersHaveDistinctNames]
  | cons member members induction => simp [MembersHaveDistinctNames, induction, and_assoc]

mutual

/-- A form of a value is the same value. -/
theorem Same.refl : (value : Json) → value.Same value
  | .null => .null
  | .bool value => .bool value
  | .number spelling => .number spelling
  | .string text => .string text
  | .array items => .array (Same.reflAll items)
  | .object members => .object (.refl _) fun name value other found found_other => by
      cases found.symm.trans found_other
      exact Same.reflMembers members name value found
  | .unreadable => .unreadable

theorem Same.reflAll : (items : List Json) → List.Forall₂ Same items items
  | [] => .nil
  | item :: items => .cons (Same.refl item) (Same.reflAll items)

theorem Same.reflMembers : (members : List (String × Json)) → ∀ (name : String) (value : Json),
    members.lookup name = some value → value.Same value
  | [], _, _, found => by cases found
  | (key, first) :: members, name, value, found => by
      rw [List.lookup_cons] at found
      split at found
      · cases found
        exact Same.refl first
      · exact Same.reflMembers members name value found

end

theorem lookup_eq_none_iff {name : String} {members : List (String × Json)} :
    members.lookup name = none ↔ name ∉ members.map Prod.fst := by
  rw [List.lookup_eq_none_iff]
  constructor
  · intro apart listed
    obtain ⟨member, member_mem, rfl⟩ := List.mem_map.mp listed
    exact bne_iff_ne.mp (apart member member_mem) rfl
  · rintro absent member member_mem
    exact bne_iff_ne.mpr fun same => absent (same ▸ List.mem_map_of_mem member_mem)

namespace Same

variable {value other : Json} {members others : List (String × Json)}

/-- Under a name, the same object has the same value or none. -/
theorem lookup (same : (Json.object members).Same (.object others)) (name : String) :
    (members.lookup name = none ∧ others.lookup name = none) ∨
      ∃ value other, members.lookup name = some value ∧ others.lookup name = some other ∧
        value.Same other := by
  cases same with
  | object names_perm values_same =>
      have both : members.lookup name = none ↔ others.lookup name = none := by
        rw [lookup_eq_none_iff, lookup_eq_none_iff, names_perm.mem_iff]
      cases found : members.lookup name with
      | none => exact .inl ⟨rfl, both.mp found⟩
      | some value =>
          obtain ⟨other, found_other⟩ : ∃ other, others.lookup name = some other := by
            apply Option.ne_none_iff_exists'.mp
            rw [Ne, ← both, found]
            exact Option.some_ne_none value
          exact .inr ⟨value, other, rfl, found_other, values_same name value other found found_other⟩

/-- An object with its members in another order is the same value. -/
theorem of_perm (distinct : (members.map Prod.fst).Nodup) (perm : members.Perm others) :
    (Json.object members).Same (.object others) := by
  apply object (perm.map Prod.fst)
  intro name value other found found_other
  have listed {entries : List (String × Json)} {value : Json}
      (found : entries.lookup name = some value) : (name, value) ∈ entries := by
    obtain ⟨front, back, rfl, -⟩ := List.lookup_eq_some_iff.mp found
    simp
  have one := List.inj_on_of_nodup_map distinct (listed found) (perm.mem_iff.mpr (listed found_other))
  cases one rfl
  exact .refl value

theorem text?_eq (same : value.Same other) : value.text? = other.text? := by
  cases same <;> rfl

theorem bool?_eq (same : value.Same other) : value.bool? = other.bool? := by
  cases same <;> rfl

/-- A field that has to be there is read from the same object as the same. -/
theorem required_eq {α : Type} {read : Json → Option α}
    (same : (Json.object members).Same (.object others))
    (read_eq : ∀ {value other : Json}, value.Same other → read value = read other)
    (name : String) :
    required read (members.lookup name) = required read (others.lookup name) := by
  obtain ⟨found, found_other⟩ | ⟨value, other, found, found_other, values⟩ := same.lookup name
  · rw [found, found_other]
  · rw [found, found_other]
    exact read_eq values

/-- A field that may be left out is read from the same object as the same. -/
theorem orDefault_eq {α : Type} (read : Json → Option α) (default : α)
    (same : (Json.object members).Same (.object others))
    (read_eq : ∀ {value other : Json}, value.Same other → read value = read other)
    (name : String) :
    orDefault read default (members.lookup name) =
      orDefault read default (others.lookup name) := by
  obtain ⟨found, found_other⟩ | ⟨value, other, found, found_other, values⟩ := same.lookup name
  · rw [found, found_other]
  · rw [found, found_other]
    exact read_eq values

end Same

end IslandSlots.Json
