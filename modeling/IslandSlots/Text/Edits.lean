/-!
# Edits

Changes to a sequence that are given one after another by places of the sequence as it was, and
made all at once. At a place what is inserted on the left comes first, then what is inserted on
the right, then what replaces a stretch that begins there. An insertion strictly inside a replaced
stretch is lost with it, and stretches that meet in an element are in conflict.
-/

namespace IslandSlots

/-- A change to a sequence. A place is the number of elements before it. -/
inductive Edit (α : Type) where
  /-- Puts elements for those between two places. -/
  | replace (start stop : Nat) (content : List α)
  /-- Puts elements on the left side of a place. -/
  | insertLeft (place : Nat) (content : List α)
  /-- Puts elements on the right side of a place. -/
  | insertRight (place : Nat) (content : List α)
  deriving DecidableEq, Repr

/-- Two stretches to be replaced meet. -/
structure EditConflict where
  /-- The start of the later stretch. -/
  offset : Nat
  deriving DecidableEq, Repr

/-- The conflict in words. -/
def EditConflict.message (conflict : EditConflict) : String :=
  "conflicting rewrites around byte " ++ toString conflict.offset

/-- A stretch with what is to stand in its place. -/
structure Replacement (α : Type) where
  /-- The place where the stretch begins. -/
  start : Nat
  /-- The place where it ends. -/
  stop : Nat
  /-- What is to stand there. -/
  content : List α
  deriving DecidableEq, Repr

namespace Edit

variable {α : Type}

/-- What an edit inserts on the left of a place. -/
def leftAt (place : Nat) : Edit α → List α
  | insertLeft here content => if here = place then content else []
  | _ => []

/-- What an edit inserts on the right of a place. -/
def rightAt (place : Nat) : Edit α → List α
  | insertRight here content => if here = place then content else []
  | _ => []

/-- The stretch that an edit replaces. -/
def replacement? : Edit α → Option (Replacement α)
  | replace start stop content => some ⟨start, stop, content⟩
  | _ => none

/-- What edits insert at a place. -/
def insertedAt (edits : List (Edit α)) (place : Nat) : List α :=
  edits.flatMap (leftAt place) ++ edits.flatMap (rightAt place)

/-- Elements with the insertions at each place from the one before them to the one after them. -/
def withInsertions (edits : List (Edit α)) (place : Nat) : List α → List α
  | [] => insertedAt edits place
  | element :: rest =>
    insertedAt edits place ++ element :: withInsertions edits (place + 1) rest

/-- The stretches that edits replace, by the place where they begin. -/
def replacements (edits : List (Edit α)) : List (Replacement α) :=
  (edits.filterMap replacement?).mergeSort fun left right => left.start ≤ right.start

/-- The first conflict among stretches in order. -/
def conflict? : List (Replacement α) → Option EditConflict
  | first :: second :: rest =>
    if second.start < first.stop then some ⟨second.start⟩ else conflict? (second :: rest)
  | _ => none

/-- The part of a sequence from a place on, with insertions and the given replacements in order. -/
def applyFrom (edits : List (Edit α)) (source : List α) (place : Nat) :
    List (Replacement α) → List α
  | [] => withInsertions edits place (source.drop place)
  | next :: rest =>
    withInsertions edits place ((source.drop place).take (next.start - place)) ++ next.content ++
      applyFrom edits source next.stop rest

/-- A sequence with all edits made. -/
def apply (edits : List (Edit α)) (source : List α) : Except EditConflict (List α) :=
  match conflict? (replacements edits) with
  | some conflict => .error conflict
  | none => .ok (applyFrom edits source 0 (replacements edits))

end Edit

end IslandSlots
