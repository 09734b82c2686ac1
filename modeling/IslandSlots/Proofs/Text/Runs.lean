import IslandSlots.Proofs.Text.Utf8
import IslandSlots.Text.Blank

/-!
# Runs of bytes in text

A reader of bytes takes a run of them up to the first of another kind. Where the kind is told by the
first byte of a character, the run is made of whole characters. A run may otherwise end inside a
character, whose bytes then show as one replacement character.
-/

namespace IslandSlots.Text

/-! ## First bytes -/

/-- A character is one byte below 128, or begins with a byte that goes on with no other. -/
theorem utf8EncodeChar_cases (c : Char) :
    (∃ b, String.utf8EncodeChar c = [b] ∧ b < 0x80) ∨
      ∃ b more, String.utf8EncodeChar c = b :: more ∧ 0xC0 ≤ b ∧ 128 ≤ c.toNat := by
  have high (bits offset : Nat) (lower : 192 ≤ offset) (upper : bits + offset < 256) :
      0xC0 ≤ UInt8.ofNat (bits + offset) := by
    rw [UInt8.le_iff_toNat_le, UInt8.toNat_ofNat']
    show 192 ≤ _
    omega
  simp only [String.utf8EncodeChar]
  split
  · rename_i small
    refine .inl ⟨_, rfl, ?_⟩
    rw [UInt8.lt_iff_toNat_lt, UInt8.toNat_ofNat']
    show _ < 128
    omega
  · rename_i beyond
    have large : 128 ≤ c.toNat := Nat.lt_of_not_le beyond
    split
    · exact .inr ⟨_, _, rfl, high _ _ (by omega) (by omega), large⟩
    · split
      · exact .inr ⟨_, _, rfl, high _ _ (by omega) (by omega), large⟩
      · exact .inr ⟨_, _, rfl, high _ _ (by omega) (by omega), large⟩

/-- Whether a character is made of bytes of a kind. -/
def madeOf (p : UInt8 → Bool) (c : Char) : Bool :=
  (String.utf8EncodeChar c).all p

/-- The first byte of a character tells whether all its bytes are of a kind. -/
def ToldByFirst (p : UInt8 → Bool) : Prop :=
  ∀ c b more, String.utf8EncodeChar c = b :: more → p b → madeOf p c

/-- A kind of bytes that begin no longer character. -/
theorem toldByFirst_of_lt {p : UInt8 → Bool} (low : ∀ b, p b → b < 0xC0) : ToldByFirst p := by
  intro c b more encoded fits
  rcases utf8EncodeChar_cases c with ⟨single, single_eq, -⟩ | ⟨first, rest, first_eq, begins, -⟩
  · obtain ⟨rfl, rfl⟩ := List.cons.inj (encoded.symm.trans single_eq)
    simp [madeOf, encoded, fits]
  · obtain ⟨rfl, rfl⟩ := List.cons.inj (encoded.symm.trans first_eq)
    exact absurd (low b fits) (UInt8.not_lt.mpr begins)

theorem toldByFirst_of_ascii {p : UInt8 → Bool} (ascii : ∀ b, p b → b < 0x80) : ToldByFirst p :=
  toldByFirst_of_lt fun b fits => UInt8.lt_trans (ascii b fits) (by decide)

/-- All bytes but one that is a character by itself. -/
theorem toldByFirst_ne {q : UInt8} (ascii : q < 0x80) : ToldByFirst (· != q) := by
  intro c b more encoded other
  refine List.all_eq_true.mpr fun found member => bne_iff_ne.mpr ?_
  rintro rfl
  rw [utf8EncodeChar_of_mem member ascii] at encoded
  obtain ⟨rfl, -⟩ := List.cons.inj encoded
  exact (bne_iff_ne.mp other) rfl

section Runs

variable {p : UInt8 → Bool}

theorem exists_first (c : Char) : ∃ b more, String.utf8EncodeChar c = b :: more := by
  rcases utf8EncodeChar_cases c with ⟨b, encoded, -⟩ | ⟨b, more, encoded, -⟩
  · exact ⟨b, [], encoded⟩
  · exact ⟨b, more, encoded⟩

/-- A run of bytes of such a kind is made of whole characters, and so is what follows it. -/
theorem span_encode (told : ToldByFirst p) (text : List Char) :
    (encode text).takeWhile p = encode (text.takeWhile (madeOf p)) ∧
      (encode text).dropWhile p = encode (text.dropWhile (madeOf p)) := by
  induction text with
  | nil => exact ⟨rfl, rfl⟩
  | cons c text induction =>
      have cons_eq (rest : List Char) : encode (c :: rest) = String.utf8EncodeChar c ++ encode rest :=
        List.flatMap_cons
      cases made : madeOf p c with
      | true =>
          have all : ∀ b ∈ String.utf8EncodeChar c, p b := List.all_eq_true.mp made
          rw [List.takeWhile_cons_of_pos made, List.dropWhile_cons_of_pos made, cons_eq, cons_eq,
            List.takeWhile_append_of_pos all, List.dropWhile_append_of_pos all, induction.1,
            induction.2]
          exact ⟨rfl, rfl⟩
      | false =>
          obtain ⟨b, more, encoded⟩ := exists_first c
          have stops : ¬p b := fun fits => by simp [told c b more encoded fits] at made
          rw [List.takeWhile_cons_of_neg (by simp [made]),
            List.dropWhile_cons_of_neg (by simp [made]), cons_eq, encoded, List.cons_append,
            List.takeWhile_cons_of_neg stops, List.dropWhile_cons_of_neg stops]
          exact ⟨rfl, rfl⟩

/-- A byte below 128 is in no character but its own. -/
theorem eq_byteChar_of_mem {c : Char} {b : UInt8} (found : b ∈ String.utf8EncodeChar c)
    (ascii : b < 0x80) : c = byteChar b := by
  have chars : decode (encode [c]) = decode (encode [byteChar b]) := by
    rw [encode, List.flatMap_singleton, encode, List.flatMap_singleton,
      utf8EncodeChar_of_mem found ascii, byteChar, utf8EncodeChar_ofNat ascii]
  rw [decode_encode, decode_encode] at chars
  exact List.head_eq_of_cons_eq chars

/-- Bytes of text that begin with one below 128 begin with that character. -/
theorem exists_cons_of_encode {text : List Char} {b : UInt8} {rest : List UInt8}
    (encoded : encode text = b :: rest) (ascii : b < 0x80) :
    ∃ behind, text = byteChar b :: behind ∧ rest = encode behind := by
  cases text with
  | nil => cases encoded
  | cons c behind =>
      have cons_eq : encode (c :: behind) = String.utf8EncodeChar c ++ encode behind :=
        List.flatMap_cons
      obtain ⟨first, more, first_eq⟩ := exists_first c
      rw [cons_eq, first_eq, List.cons_append] at encoded
      obtain ⟨rfl, rest_eq⟩ := List.cons.inj encoded
      have member : first ∈ String.utf8EncodeChar c := first_eq ▸ List.mem_cons_self
      obtain ⟨-, rfl⟩ := List.cons.inj (first_eq.symm.trans (utf8EncodeChar_of_mem member ascii))
      exact ⟨behind, by rw [eq_byteChar_of_mem member ascii], rest_eq.symm⟩

end Runs

/-! ## Bytes of a part of a character -/

/-- Some but not all bytes of a character read as one replacement character. -/
theorem decode_part {c : Char} {part more : List UInt8}
    (split : String.utf8EncodeChar c = part ++ more) (filled : part ≠ []) (left : more ≠ []) :
    decode part = [replacement] := by
  have valid : c.val.toNat < 0xD800 ∨ 0xDFFF < c.val.toNat ∧ c.val.toNat < 0x110000 := c.valid
  have unfinished (read : PartialChar) : decodeFrom (some read) [] = [replacement] := rfl
  obtain ⟨first, part, rfl⟩ := List.exists_cons_of_ne_nil filled
  obtain ⟨last, more, rfl⟩ := List.exists_cons_of_ne_nil left
  generalize code_eq : c.val.toNat = code at valid
  simp only [String.utf8EncodeChar, code_eq, List.cons_append] at split
  rw [decode]
  split at split
  · simp at split
  · split at split
    · obtain ⟨rfl, behind⟩ := List.cons.inj split
      have begins := firstByte_two (code / 64 % 32) (by omega) (by omega)
      rcases part with _ | ⟨second, part⟩
      · rw [decodeFrom_first begins, unfinished]
      · simp at behind
    · split at split
      · obtain ⟨rfl, behind⟩ := List.cons.inj split
        have begins := firstByte_three (code / 4096 % 16) (by omega)
        rcases part with _ | ⟨second, _ | ⟨third, part⟩⟩
        · rw [decodeFrom_first begins, unfinished]
        · obtain ⟨rfl, -⟩ := List.cons.inj behind
          rw [decodeFrom_first begins, decodeFrom_continue 0 _ (by omega) ?_ ?_, unfinished]
          · split <;> simp only [UInt8.reduceToNat] <;> omega
          · split <;> simp only [UInt8.reduceToNat] <;> omega
        · simp at behind
      · obtain ⟨rfl, behind⟩ := List.cons.inj split
        have begins := firstByte_four (code / 262144 % 8) (by omega)
        have second_lower : (if code / 262144 % 8 = 0 then (0x90 : UInt8) else 0x80).toNat ≤
            code / 4096 % 64 + 128 := by
          split <;> simp only [UInt8.reduceToNat] <;> omega
        have second_upper : code / 4096 % 64 + 128 ≤
            (if code / 262144 % 8 = 4 then (0x8F : UInt8) else 0xBF).toNat := by
          split <;> simp only [UInt8.reduceToNat] <;> omega
        rcases part with _ | ⟨second, _ | ⟨third, _ | ⟨fourth, part⟩⟩⟩
        · rw [decodeFrom_first begins, unfinished]
        · obtain ⟨rfl, -⟩ := List.cons.inj behind
          rw [decodeFrom_first begins, decodeFrom_continue 1 _ (by omega) second_lower second_upper,
            unfinished]
        · obtain ⟨rfl, farther⟩ := List.cons.inj behind
          obtain ⟨rfl, -⟩ := List.cons.inj farther
          rw [decodeFrom_first begins, decodeFrom_continue 1 _ (by omega) second_lower second_upper,
            decodeFrom_continue 0 _ (by omega) (by simp) (by simp; omega), unfinished]
        · simp at behind

end IslandSlots.Text
