/-!
# JSON values

Values with the members of an object in the order in which they are written, repeated names
included.
-/

namespace IslandSlots

/-- A JSON value. -/
inductive Json where
  /-- The word `null`. -/
  | null
  /-- A truth value. -/
  | bool (value : Bool)
  /-- A number, as it is spelled. -/
  | number (spelling : String)
  /-- A string. -/
  | string (text : String)
  /-- An array. -/
  | array (items : List Json)
  /-- An object. -/
  | object (members : List (String × Json))
  /-- A string that spells no text because a surrogate stands alone in it, or an object with such
  a string for a name. -/
  | unreadable
  deriving Repr, Inhabited

end IslandSlots
