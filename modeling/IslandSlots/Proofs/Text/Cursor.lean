import IslandSlots.Proofs.Outcome
import IslandSlots.Proofs.Text.Runs
import IslandSlots.Text.Search

/-!
# Reading text with a cursor

Bytes of a text are read at places, and parts of it are taken from one place to another. A step is
stopped where it reads behind the end, where a part of the text would begin or end inside a
character, and where a loop takes more rounds than it is given. A cursor that stands in front of some
bytes of the text reads exactly those.
-/

namespace IslandSlots

open Text

/-- Why a step of a cursor is stopped. -/
inductive Trap where
  /-- A place behind the end is read, or a part ends there or before it begins. -/
  | outside
  /-- A part of the text begins or ends inside a character. -/
  | split
  /-- A loop goes on after all its rounds. -/
  | endless
  deriving DecidableEq, Repr

/-- The outcome of steps of a cursor, if none of them is stopped. -/
abbrev Unstopped (α : Type) := Except Trap α

namespace Cursor

/-! ## Steps -/

/-- How many bytes a text has. -/
def size (text : List Char) : Nat :=
  (encode text).length

/-- Whether a text can be cut at a place. -/
def cutsAt : List Char → Nat → Bool
  | _, 0 => true
  | [], _ + 1 => false
  | c :: rest, place + 1 => c.utf8Size ≤ place + 1 && cutsAt rest (place + 1 - c.utf8Size)

theorem cutsAt_iff {text : List Char} {place : Nat} : cutsAt text place ↔ IsCut text place := by
  induction text generalizing place with
  | nil =>
      cases place with
      | zero => exact ⟨fun _ => isCut_zero [], fun _ => rfl⟩
      | succ place =>
          refine ⟨fun found => ?_, fun cut => absurd cut.le (Nat.not_succ_le_zero _)⟩
          cases found
  | cons c rest induction =>
      cases place with
      | zero => exact ⟨fun _ => isCut_zero _, fun _ => rfl⟩
      | succ place =>
          rw [cutsAt, Bool.and_eq_true, decide_eq_true_eq, induction]
          constructor
          · rintro ⟨fits, cut⟩
            have behind := cut.cons c
            rwa [Nat.add_sub_cancel' fits] at behind
          · rintro ⟨before, after, split, length_eq⟩
            cases before with
            | nil => cases length_eq
            | cons first before =>
                obtain ⟨rfl, rfl⟩ := List.cons.inj split
                rw [byteLength_cons] at length_eq
                exact ⟨by omega, before, after, rfl, by omega⟩

instance (text : List Char) (place : Nat) : Decidable (IsCut text place) :=
  decidable_of_iff _ cutsAt_iff

/-- The byte at a place. -/
def byteAt (text : List Char) (place : Nat) : Unstopped UInt8 :=
  match (encode text)[place]? with
  | some b => .ok b
  | none => .error .outside

/-- The byte at a place, if the text does not end before it. -/
def peek (text : List Char) (place : Nat) : Unstopped (Option UInt8) :=
  if place < size text then some <$> byteAt text place else .ok none

/-- The bytes from one place to another. -/
def bytesBetween (text : List Char) (start stop : Nat) : Unstopped (List UInt8) :=
  if start ≤ stop ∧ stop ≤ size text then .ok (((encode text).drop start).take (stop - start))
  else .error .outside

/-- The part of a text from one place to another, as its bytes. -/
def slice (text : List Char) (start stop : Nat) : Unstopped (List UInt8) :=
  if IsCut text start ∧ IsCut text stop then bytesBetween text start stop else .error .split

/-- The part of a text from a place on. -/
def sliceFrom (text : List Char) (start : Nat) : Unstopped (List UInt8) :=
  slice text start (size text)

/-- The bytes from a place to the first mark behind it, and the place behind the mark. -/
def bytesBefore? (text : List Char) (mark : List UInt8) (start : Nat) :
    Unstopped (Option (List UInt8 × Nat)) := do
  match splitFirst? mark (← sliceFrom text start) with
  | some (inside, _) =>
    let stop := start + inside.length
    return some (← slice text start stop, stop + mark.length)
  | none => return none

/-- Takes a step again and again until it gives a result, in a number of rounds. -/
def rounds {σ α : Type} (step : σ → Unstopped (σ ⊕ α)) : Nat → σ → Unstopped α
  | 0, _ => .error .endless
  | count + 1, state => do
    match ← step state with
    | .inl next => rounds step count next
    | .inr result => return result

/-- Takes a step again and again, in as many rounds as a text has bytes and one more. -/
def loop {σ α : Type} (text : List Char) (step : σ → Unstopped (σ ⊕ α)) (state : σ) : Unstopped α :=
  rounds step (size text + 1) state

/-- The place behind the bytes of a kind from a place on. -/
def pass (text : List Char) (p : UInt8 → Bool) (place : Nat) : Unstopped Nat :=
  loop text (fun place => do
    match ← peek text place with
    | some b => return if p b then .inl (place + 1) else .inr place
    | none => return .inr place) place

@[simp]
theorem ok_bind {α β : Type} (value : α) (next : α → Unstopped β) :
    ((.ok value : Unstopped α) >>= next) = next value := rfl

@[simp]
theorem pure_eq_ok {α : Type} (value : α) : (pure value : Unstopped α) = .ok value := rfl

/-! ## Loops -/

section Loops

variable {σ τ α : Type}

/-- A round with some bytes in front of the cursor ends with a result, or goes on to the same result
with less in front of it. -/
def Progress (enter : List UInt8 → τ → σ) (result : List UInt8 → τ → α)
    (holds : List UInt8 → Prop) (rest : List UInt8) (kept : τ) (round : Unstopped (σ ⊕ α)) : Prop :=
  round = .ok (.inr (result rest kept)) ∨
    ∃ behind next, round = .ok (.inl (enter behind next)) ∧ holds behind ∧
      behind.length < rest.length ∧ result behind next = result rest kept

variable {step : σ → Unstopped (σ ⊕ α)} {enter : List UInt8 → τ → σ}
  {result : List UInt8 → τ → α} {holds : List UInt8 → Prop}

/-- Rounds that all make progress come to the result, if there are more of them than bytes. -/
theorem rounds_eq
    (steps : ∀ rest kept, holds rest →
      Progress enter result holds rest kept (step (enter rest kept)))
    {rest : List UInt8} {kept : τ} {count : Nat} (start : holds rest)
    (enough : rest.length < count) :
    rounds step count (enter rest kept) = .ok (result rest kept) := by
  induction count generalizing rest kept with
  | zero => exact absurd enough (Nat.not_lt_zero _)
  | succ count induction =>
      rw [rounds]
      rcases steps rest kept start with ends | ⟨behind, next, goes_on, after, less, same⟩
      · rw [ends]
        rfl
      · rw [goes_on, ← same]
        exact induction after (Nat.lt_of_lt_of_le less (Nat.lt_succ_iff.mp enough))

/-- So a loop in front of the last bytes of a text comes to the result. -/
theorem loop_eq {text : List Char}
    (steps : ∀ rest kept, holds rest →
      Progress enter result holds rest kept (step (enter rest kept)))
    {rest : List UInt8} {kept : τ} (start : holds rest) (here : rest <:+ encode text) :
    loop text step (enter rest kept) = .ok (result rest kept) :=
  rounds_eq steps start (Nat.lt_succ_of_le here.length_le)

end Loops

/-! ## Places in front of bytes -/

/-- The place of a cursor in front of the last bytes of a text. -/
def placeOf (text : List Char) (rest : List UInt8) : Nat :=
  size text - rest.length

section Places

variable {text : List Char} {rest front : List UInt8} {b : UInt8}

theorem placeOf_le (text : List Char) (rest : List UInt8) : placeOf text rest ≤ size text :=
  Nat.sub_le _ _

theorem placeOf_encode (text : List Char) : placeOf text (encode text) = 0 :=
  Nat.sub_self _

theorem placeOf_nil (text : List Char) : placeOf text [] = size text := rfl

/-- The bytes before the cursor and those in front of it. -/
theorem exists_passed (here : rest <:+ encode text) :
    ∃ passed, encode text = passed ++ rest ∧ placeOf text rest = passed.length := by
  obtain ⟨passed, split⟩ := here
  refine ⟨passed, split.symm, ?_⟩
  rw [placeOf, size, ← split, List.length_append, Nat.add_sub_cancel_right]

theorem placeOf_append (here : front ++ rest <:+ encode text) :
    placeOf text rest = placeOf text (front ++ rest) + front.length := by
  have bound := here.length_le
  rw [List.length_append] at bound
  rw [placeOf, placeOf, size, List.length_append]
  omega

theorem placeOf_cons (here : b :: rest <:+ encode text) :
    placeOf text rest = placeOf text (b :: rest) + 1 :=
  @placeOf_append text rest [b] here

theorem placeOf_of_suffix {behind : List UInt8} (here : rest <:+ encode text)
    (inside : behind <:+ rest) :
    placeOf text behind = placeOf text rest + (rest.length - behind.length) := by
  obtain ⟨front, rfl⟩ := inside
  rw [placeOf_append here, List.length_append, Nat.add_sub_cancel_right]

theorem placeOf_lt_iff (here : rest <:+ encode text) :
    placeOf text rest < size text ↔ rest ≠ [] := by
  have bound := here.length_le
  rw [← List.length_pos_iff, placeOf, size]
  omega

theorem tail_suffix (here : b :: rest <:+ encode text) : rest <:+ encode text :=
  (List.suffix_cons b rest).trans here

/-- At its place the first byte in front of the cursor is read. -/
theorem byteAt_placeOf (here : b :: rest <:+ encode text) :
    byteAt text (placeOf text (b :: rest)) = .ok b := by
  obtain ⟨passed, split, place_eq⟩ := exists_passed here
  have found : (encode text)[passed.length]? = some b := by
    rw [split, List.getElem?_append_right (Nat.le_refl _), Nat.sub_self]
    rfl
  rw [byteAt, place_eq, found]

theorem peek_placeOf (here : rest <:+ encode text) :
    peek text (placeOf text rest) = .ok rest.head? := by
  have inside := placeOf_lt_iff here
  cases rest with
  | nil => rw [peek, if_neg (by simp [inside])]; rfl
  | cons b rest => rw [peek, if_pos (by simp [inside]), byteAt_placeOf here]; rfl

/-- What is between two places of the cursor is what it passed. -/
theorem bytesBetween_placeOf (here : front ++ rest <:+ encode text) :
    bytesBetween text (placeOf text (front ++ rest)) (placeOf text rest) = .ok front := by
  obtain ⟨passed, split, place_eq⟩ := exists_passed here
  have moved := placeOf_append here
  rw [bytesBetween, if_pos ⟨by omega, placeOf_le text rest⟩, moved, place_eq, split,
    Nat.add_sub_cancel_left, List.drop_left, List.take_left]

theorem slice_placeOf (here : front ++ rest <:+ encode text)
    (start : IsCut text (placeOf text (front ++ rest))) (stop : IsCut text (placeOf text rest)) :
    slice text (placeOf text (front ++ rest)) (placeOf text rest) = .ok front := by
  rw [slice, if_pos ⟨start, stop⟩, bytesBetween_placeOf here]

theorem isCut_size (text : List Char) : IsCut text (size text) :=
  ⟨text, [], (List.append_nil text).symm, (length_encode text).symm⟩

theorem sliceFrom_placeOf (here : rest <:+ encode text) (start : IsCut text (placeOf text rest)) :
    sliceFrom text (placeOf text rest) = .ok rest := by
  have whole : rest ++ [] <:+ encode text := by rwa [List.append_nil]
  have sliced := slice_placeOf whole (by rwa [List.append_nil]) (isCut_size text)
  rwa [List.append_nil] at sliced

/-- The text may be cut before and behind a byte that is a character by itself. -/
theorem isCut_placeOf (here : b :: rest <:+ encode text) (ascii : b < 0x80) :
    IsCut text (placeOf text (b :: rest)) ∧ IsCut text (placeOf text rest) := by
  obtain ⟨passed, split, place_eq⟩ := exists_passed here
  have cuts := isCut_of_ascii split ascii
  rwa [← place_eq, ← placeOf_cons here] at cuts

/-- What stands before the first place of a mark that begins with such a byte is a part of the
text. -/
theorem bytesBefore?_placeOf {mark more : List UInt8} (starts : mark = b :: more)
    (ascii : b < 0x80) (here : rest <:+ encode text) (start : IsCut text (placeOf text rest)) :
    bytesBefore? text mark (placeOf text rest) =
      .ok ((splitFirst? mark rest).map fun (body, behind) => (body, placeOf text behind)) := by
  rw [bytesBefore?, sliceFrom_placeOf here start, ok_bind]
  cases found : splitFirst? mark rest with
  | none => rfl
  | some parts =>
      obtain ⟨body, behind⟩ := parts
      have split := eq_of_splitFirst? found
      rw [List.append_assoc] at split
      subst split starts
      have marked : (b :: more) ++ behind <:+ encode text := (List.suffix_append body _).trans here
      have stop := (isCut_placeOf marked ascii).1
      simp only [← placeOf_append here, ← placeOf_append marked, slice_placeOf here start stop,
        ok_bind]
      rfl

theorem dropWhile_suffix (p : UInt8 → Bool) (here : rest <:+ encode text) :
    rest.dropWhile p <:+ encode text :=
  (List.dropWhile_suffix p).trans here

theorem placeOf_dropWhile (p : UInt8 → Bool) (here : rest <:+ encode text) :
    placeOf text (rest.dropWhile p) = placeOf text rest + (rest.takeWhile p).length := by
  have split : rest.takeWhile p ++ rest.dropWhile p = rest := List.takeWhile_append_dropWhile
  have moved := @placeOf_append text (rest.dropWhile p) (rest.takeWhile p) (by rwa [split])
  rwa [split] at moved

/-- The cursor passes the bytes of a kind in front of it. -/
theorem pass_placeOf (p : UInt8 → Bool) (here : rest <:+ encode text) :
    pass text p (placeOf text rest) = .ok (placeOf text (rest.dropWhile p)) := by
  refine @loop_eq Nat Unit Nat _ (fun rest _ => placeOf text rest)
    (fun rest _ => placeOf text (rest.dropWhile p)) (· <:+ encode text) text ?_ rest () here here
  intro rest _ here
  rw [Progress, peek_placeOf here]
  cases rest with
  | nil => exact .inl rfl
  | cons b rest =>
      cases fits : p b with
      | true =>
          refine .inr ⟨rest, (), ?_, tail_suffix here, Nat.lt_succ_self _, ?_⟩
          · simp [placeOf_cons here, fits]
          · rw [List.dropWhile_cons_of_pos fits]
      | false =>
          rw [List.dropWhile_cons_of_neg (by simp [fits])]
          exact .inl (by simp [fits])

/-- What the cursor passed are the bytes of the kind. -/
theorem bytesBetween_pass (p : UInt8 → Bool) (here : rest <:+ encode text) :
    bytesBetween text (placeOf text rest) (placeOf text (rest.dropWhile p)) =
      .ok (rest.takeWhile p) := by
  have split : rest.takeWhile p ++ rest.dropWhile p = rest := List.takeWhile_append_dropWhile
  have between := @bytesBetween_placeOf text (rest.dropWhile p) (rest.takeWhile p) (by rwa [split])
  rwa [split] at between

end Places

end Cursor

end IslandSlots
