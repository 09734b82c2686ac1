import IslandSlots.Text.Utf8
import Mathlib.Tactic.Common

/-!
# Bytes of text

Text survives being written as bytes and read back. A byte below 128 is a whole character wherever
it stands among the bytes of a text, so a cut next to one never goes through a character.
-/

namespace IslandSlots.Text

/-- The bytes of a string are those that it is stored as. -/
theorem bytes_eq_toByteArray (text : String) : bytes text = text.toByteArray.data.toList := by
  rw [← String.utf8Encode_toList, List.utf8Encode, List.toList_data_toByteArray]
  rfl

/-! ## Reading back what was written -/

section Continuation

variable {least greatest : UInt8} {bits : Nat}

/-- A byte within the bounds carries six bits. -/
private theorem within_bounds (small : bits < 64) (lower : least.toNat ≤ bits + 128)
    (upper : bits + 128 ≤ greatest.toNat) :
    (least ≤ UInt8.ofNat (bits + 128) && UInt8.ofNat (bits + 128) ≤ greatest) = true ∧
      (UInt8.ofNat (bits + 128)).toNat % 64 = bits := by
  have number : (UInt8.ofNat (bits + 128)).toNat = bits + 128 := by
    rw [UInt8.toNat_ofNat']
    omega
  constructor
  · simp only [UInt8.le_iff_toNat_le, number, lower, upper, decide_true, Bool.and_true]
  · omega

/-- The last byte of a character settles it. -/
theorem decodeFrom_last (value : Nat) (small : bits < 64) (lower : least.toNat ≤ bits + 128)
    (upper : bits + 128 ≤ greatest.toNat) (rest : List UInt8) :
    decodeFrom (some ⟨1, least, greatest, value⟩) (UInt8.ofNat (bits + 128) :: rest) =
      Char.ofNat (value * 64 + bits) :: decodeFrom none rest := by
  obtain ⟨fits, low_bits⟩ := within_bounds small lower upper
  simp only [decodeFrom, nextByte, fits, if_true, low_bits, Nat.le_refl, List.singleton_append]

/-- A byte that others follow adds its bits. -/
theorem decodeFrom_continue (owed value : Nat) (small : bits < 64)
    (lower : least.toNat ≤ bits + 128) (upper : bits + 128 ≤ greatest.toNat) (rest : List UInt8) :
    decodeFrom (some ⟨owed + 2, least, greatest, value⟩) (UInt8.ofNat (bits + 128) :: rest) =
      decodeFrom (some ⟨owed + 1, 0x80, 0xBF, value * 64 + bits⟩) rest := by
  obtain ⟨fits, low_bits⟩ := within_bounds small lower upper
  have more : ¬owed + 2 ≤ 1 := by omega
  simp only [decodeFrom, nextByte, fits, if_true, low_bits, if_neg more, List.nil_append]
  rfl

end Continuation

/-- A byte that begins a character leaves it unfinished. -/
theorem decodeFrom_first {b : UInt8} {unfinished : PartialChar}
    (first : firstByte b = ([], some unfinished)) (rest : List UInt8) :
    decodeFrom none (b :: rest) = decodeFrom (some unfinished) rest := by
  rw [decodeFrom, nextByte, first]
  rfl

theorem firstByte_one : ∀ number < 128,
    firstByte (UInt8.ofNat number) = ([Char.ofNat number], none) := by
  decide

theorem firstByte_two : ∀ bits < 32, 2 ≤ bits →
    firstByte (UInt8.ofNat (bits + 192)) = ([], some ⟨1, 0x80, 0xBF, bits⟩) := by
  decide

theorem firstByte_three : ∀ bits < 16,
    firstByte (UInt8.ofNat (bits + 224)) =
      ([], some ⟨2, if bits = 0 then 0xA0 else 0x80, if bits = 13 then 0x9F else 0xBF, bits⟩) := by
  decide

theorem firstByte_four : ∀ bits < 5,
    firstByte (UInt8.ofNat (bits + 240)) =
      ([], some ⟨3, if bits = 0 then 0x90 else 0x80, if bits = 4 then 0x8F else 0xBF, bits⟩) := by
  decide

/-- The bytes of a character read as that character. -/
theorem decodeFrom_utf8EncodeChar (c : Char) (rest : List UInt8) :
    decodeFrom none (String.utf8EncodeChar c ++ rest) = c :: decodeFrom none rest := by
  have valid : c.val.toNat < 0xD800 ∨ 0xDFFF < c.val.toNat ∧ c.val.toNat < 0x110000 := c.valid
  have same : Char.ofNat c.val.toNat = c := Char.ofNat_toNat c
  generalize code_eq : c.val.toNat = code at valid same
  simp only [String.utf8EncodeChar, code_eq]
  split
  · rw [List.singleton_append, decodeFrom, nextByte, firstByte_one code (by omega), same]
    rfl
  · split
    · have first := firstByte_two (code / 64 % 32) (by omega) (by omega)
      have whole : code / 64 % 32 * 64 + code % 64 = code := by omega
      simp only [List.cons_append, List.nil_append]
      rw [decodeFrom_first first,
        decodeFrom_last _ (by omega) (by simp) (by simp; omega), whole, same]
    · split
      · have first := firstByte_three (code / 4096 % 16) (by omega)
        have whole : (code / 4096 % 16 * 64 + code / 64 % 64) * 64 + code % 64 = code := by omega
        simp only [List.cons_append, List.nil_append]
        rw [decodeFrom_first first,
          decodeFrom_continue 0 _ (by omega) ?_ ?_,
          decodeFrom_last _ (by omega) (by simp) (by simp; omega), whole, same]
        · split <;> simp only [UInt8.reduceToNat] <;> omega
        · split <;> simp only [UInt8.reduceToNat] <;> omega
      · have first := firstByte_four (code / 262144 % 8) (by omega)
        have whole : ((code / 262144 % 8 * 64 + code / 4096 % 64) * 64 + code / 64 % 64) * 64 +
          code % 64 = code := by omega
        simp only [List.cons_append, List.nil_append]
        rw [decodeFrom_first first,
          decodeFrom_continue 1 _ (by omega) ?_ ?_,
          decodeFrom_continue 0 _ (by omega) (by simp) (by simp; omega),
          decodeFrom_last _ (by omega) (by simp) (by simp; omega), whole, same]
        · split <;> simp only [UInt8.reduceToNat] <;> omega
        · split <;> simp only [UInt8.reduceToNat] <;> omega

/-- Text is read back from the bytes it begins. -/
theorem decode_encode_append (text : List Char) (rest : List UInt8) :
    decode (encode text ++ rest) = text ++ decode rest := by
  induction text with
  | nil => rfl
  | cons c text induction =>
      rw [encode, List.flatMap_cons, List.append_assoc, decode, decodeFrom_utf8EncodeChar]
      exact congrArg (c :: ·) induction

/-- Text is read back from its bytes. -/
@[simp]
theorem decode_encode (text : List Char) : decode (encode text) = text := by
  simpa [decode, decodeFrom] using decode_encode_append text []

@[simp]
theorem length_encode (text : List Char) : (encode text).length = byteLength text := by
  induction text with
  | nil => rfl
  | cons c text induction =>
      rw [encode, List.flatMap_cons, List.length_append, String.length_utf8EncodeChar,
        byteLength_cons]
      exact congrArg (c.utf8Size + ·) induction

theorem bytes_append (first second : String) :
    bytes (first ++ second) = bytes first ++ bytes second := by
  rw [bytes, String.toList_append, encode_append]
  rfl

theorem byteLength_eq_zero {text : List Char} (empty : byteLength text = 0) : text = [] := by
  cases text with
  | nil => rfl
  | cons c text =>
      have positive := c.utf8Size_pos
      rw [byteLength_cons] at empty
      omega

theorem utf8EncodeChar_ofNat {b : UInt8} (ascii : b < 0x80) :
    String.utf8EncodeChar (Char.ofNat b.toNat) = [b] := by
  have small : b.toNat < 128 := UInt8.lt_iff_toNat_lt.mp ascii
  have valid : b.toNat.isValidChar := .inl (by omega)
  have number : (Char.ofNat b.toNat).val.toNat = b.toNat := by
    rw [Char.ofNat, dif_pos valid]
    rfl
  simp only [String.utf8EncodeChar, number, if_pos (show b.toNat ≤ 127 by omega),
    UInt8.ofNat_toNat]

/-- Bytes below 128 are kept by reading them as text. -/
theorem encode_decode_of_ascii {bs : List UInt8} (ascii : ∀ b ∈ bs, b < 0x80) :
    encode (decode bs) = bs := by
  induction bs with
  | nil => rfl
  | cons b bs induction =>
      have here := ascii b List.mem_cons_self
      rw [decode, decodeFrom, nextByte, firstByte, if_pos here, encode, List.flatMap_append,
        List.flatMap_singleton, utf8EncodeChar_ofNat here]
      exact congrArg (b :: ·) (induction fun other found =>
        ascii other (List.mem_cons_of_mem b found))

/-- What holds of the bytes of all numbers holds of every byte. -/
theorem forall_byte {P : UInt8 → Prop} (all : ∀ number < 256, P (UInt8.ofNat number))
    (b : UInt8) : P b := by
  have here := all b.toNat b.toNat_lt
  rwa [UInt8.ofNat_toNat] at here

/-! ## Cuts between characters -/

/-- A place among the bytes of a text is between two of its characters, or at an end. -/
def IsCut (text : List Char) (place : Nat) : Prop :=
  ∃ before after, text = before ++ after ∧ byteLength before = place

theorem isCut_zero (text : List Char) : IsCut text 0 :=
  ⟨[], text, rfl, rfl⟩

theorem IsCut.le {text : List Char} {place : Nat} (cut : IsCut text place) :
    place ≤ byteLength text := by
  obtain ⟨before, after, rfl, rfl⟩ := cut
  simp

theorem IsCut.cons {text : List Char} {place : Nat} (cut : IsCut text place) (c : Char) :
    IsCut (c :: text) (c.utf8Size + place) := by
  obtain ⟨before, after, rfl, rfl⟩ := cut
  exact ⟨c :: before, after, rfl, rfl⟩

/-- Every byte of a character beyond the first 128 is at least 128. -/
theorem le_of_mem_utf8EncodeChar {c : Char} {b : UInt8} (found : b ∈ String.utf8EncodeChar c)
    (beyond : ¬c.val.toNat ≤ 127) : 128 ≤ b.toNat := by
  have high (bits offset : Nat) (lower : 128 ≤ offset) (upper : bits + offset < 256) :
      128 ≤ (UInt8.ofNat (bits + offset)).toNat := by
    rw [UInt8.toNat_ofNat']
    omega
  simp only [String.utf8EncodeChar, if_neg beyond] at found
  split at found
  · simp only [List.mem_cons, List.not_mem_nil, or_false] at found
    rcases found with rfl | rfl <;> exact high _ _ (by omega) (by omega)
  · split at found
    · simp only [List.mem_cons, List.not_mem_nil, or_false] at found
      rcases found with rfl | rfl | rfl <;> exact high _ _ (by omega) (by omega)
    · simp only [List.mem_cons, List.not_mem_nil, or_false] at found
      rcases found with rfl | rfl | rfl | rfl <;> exact high _ _ (by omega) (by omega)

/-- A byte below 128 is a character by itself. -/
theorem utf8EncodeChar_of_mem {c : Char} {b : UInt8} (found : b ∈ String.utf8EncodeChar c)
    (ascii : b < 0x80) : String.utf8EncodeChar c = [b] := by
  have small : b.toNat < 128 := UInt8.lt_iff_toNat_lt.mp ascii
  by_cases single : c.val.toNat ≤ 127
  · simp only [String.utf8EncodeChar, if_pos single] at found ⊢
    rw [List.mem_singleton.mp found]
  · have large := le_of_mem_utf8EncodeChar found single
    omega

/-- A character that is a byte by itself is in every text that has the byte. -/
theorem mem_of_charByte_mem {c : Char} {text : List Char}
    (single : String.utf8EncodeChar c = [charByte c]) (ascii : charByte c < 0x80)
    (found : charByte c ∈ encode text) : c ∈ text := by
  obtain ⟨other, member, here⟩ := List.mem_flatMap.mp found
  have same : encode [other] = encode [c] := by
    simp only [encode, List.flatMap_singleton, single, utf8EncodeChar_of_mem here ascii]
  have chars := congrArg decode same
  rw [decode_encode, decode_encode] at chars
  obtain rfl := List.head_eq_of_cons_eq chars
  exact member

/-- The last byte of a text is its last character if it is one by itself. -/
theorem getLast?_of_charByte {c : Char} {text : List Char}
    (single : String.utf8EncodeChar c = [charByte c]) (ascii : charByte c < 0x80)
    (last : (encode text).getLast? = some (charByte c)) : text.getLast? = some c := by
  rcases List.eq_nil_or_concat text with rfl | ⟨front, final, rfl⟩
  · cases last
  · have final_filled : encode [final] ≠ [] := by
      have positive := String.length_utf8EncodeChar final
      rw [encode, List.flatMap_singleton]
      exact List.ne_nil_of_length_pos (positive ▸ final.utf8Size_pos)
    rw [List.concat_eq_append, encode_append, List.getLast?_append,
      List.getLast?_eq_some_getLast final_filled, Option.some_or,
      ← List.getLast?_eq_some_getLast] at last
    have found := mem_of_charByte_mem single ascii (List.mem_of_getLast? last)
    rw [List.concat_eq_append, List.getLast?_concat, List.mem_singleton.mp found]

/-- Next to a byte below 128 a text may be cut. -/
theorem isCut_of_ascii {text : List Char} {front back : List UInt8} {b : UInt8}
    (bytes_eq : encode text = front ++ b :: back) (ascii : b < 0x80) :
    IsCut text front.length ∧ IsCut text (front.length + 1) := by
  induction text generalizing front with
  | nil => simp at bytes_eq
  | cons c text induction =>
      rw [encode, List.flatMap_cons] at bytes_eq
      rcases List.append_eq_append_iff.mp bytes_eq with
        ⟨rest, rfl, rest_eq⟩ | ⟨rest, char_eq, rest_eq⟩
      · -- The byte stands behind the first character.
        obtain ⟨first, second⟩ := induction rest_eq
        rw [List.length_append, String.length_utf8EncodeChar, Nat.add_assoc]
        exact ⟨first.cons c, second.cons c⟩
      · cases rest with
        | nil =>
            obtain ⟨first, second⟩ := @induction [] rest_eq.symm
            rw [List.append_nil] at char_eq
            rw [← char_eq, String.length_utf8EncodeChar]
            exact ⟨first.cons c, second.cons c⟩
        | cons found rest =>
            obtain ⟨rfl, -⟩ := List.cons.inj rest_eq
            have member : b ∈ String.utf8EncodeChar c := by simp [char_eq]
            have single := utf8EncodeChar_of_mem member ascii
            have size : c.utf8Size = 1 := by
              rw [← String.length_utf8EncodeChar, single, List.length_singleton]
            have empty : front = [] := by
              have lengths := congrArg List.length (char_eq.symm.trans single)
              simp only [List.length_append, List.length_cons, List.length_nil] at lengths
              exact List.length_eq_zero_iff.mp (by omega)
            subst empty
            have behind := (isCut_zero text).cons c
            rw [size] at behind
            exact ⟨isCut_zero _, behind⟩

/-- A text may be cut behind characters that stand behind a cut. -/
theorem IsCut.behind {text passed : List Char} {front back : List UInt8}
    (cut : IsCut text front.length) (bytes_eq : encode text = front ++ encode passed ++ back) :
    IsCut text (front.length + byteLength passed) := by
  obtain ⟨before, after, rfl, length_eq⟩ := cut
  rw [encode_append, List.append_assoc] at bytes_eq
  obtain ⟨-, after_bytes⟩ := List.append_inj bytes_eq (by rw [length_encode, length_eq])
  have after_eq : after = passed ++ decode back := by
    rw [← decode_encode after, after_bytes, decode_encode_append]
  exact ⟨before ++ passed, decode back, by rw [after_eq, List.append_assoc], by
    rw [byteLength_append, length_eq]⟩

/-- Characters stand in a text where their bytes stand, if the first of them is a byte by itself. -/
theorem isInfix_of_encode {c : Char} {mark text : List Char}
    (single : String.utf8EncodeChar c = [charByte c]) (ascii : charByte c < 0x80)
    (found : encode (c :: mark) <:+: encode text) : c :: mark <:+: text := by
  obtain ⟨front, back, split⟩ := found
  have first : encode (c :: mark) = charByte c :: encode mark := by
    rw [encode, List.flatMap_cons, single]
    rfl
  have cut_here : encode text = front ++ charByte c :: (encode mark ++ back) := by
    rw [← split, first, List.append_assoc]
    rfl
  obtain ⟨before, after, rfl, length_eq⟩ := (isCut_of_ascii cut_here ascii).1
  rw [encode_append, List.append_assoc] at split
  obtain ⟨-, after_bytes⟩ := List.append_inj split (by rw [length_encode, length_eq])
  refine ⟨before, decode back, ?_⟩
  rw [← decode_encode after, ← after_bytes, decode_encode_append, List.append_assoc]

/-- Two cuts of a text part it in three. -/
theorem IsCut.exists_split {text : List Char} {start stop : Nat} (first : IsCut text start)
    (second : IsCut text stop) (ordered : start ≤ stop) :
    ∃ before part after, text = before ++ part ++ after ∧ byteLength before = start ∧
      byteLength (before ++ part) = stop := by
  obtain ⟨before, after, rfl, rfl⟩ := first
  obtain ⟨front, back, split, rfl⟩ := second
  rcases List.append_eq_append_iff.mp split with ⟨part, rfl, rfl⟩ | ⟨part, rfl, rfl⟩
  · exact ⟨before, part, back, by simp, rfl, rfl⟩
  · rw [byteLength_append] at ordered
    have empty : byteLength part = 0 := by omega
    exact ⟨front ++ part, [], after, by simp, rfl, by simp [empty]⟩

/-- A text is not cut inside a character. -/
theorem not_isCut_inside {before rest : List Char} {c : Char} {place : Nat}
    (lower : byteLength before < place) (upper : place < byteLength before + c.utf8Size) :
    ¬IsCut (before ++ c :: rest) place := by
  rintro ⟨front, back, split, rfl⟩
  rcases List.append_eq_append_iff.mp split with ⟨part, rfl, part_eq⟩ | ⟨part, rfl, -⟩
  · cases part with
    | nil => simp at lower
    | cons d part =>
        obtain ⟨rfl, -⟩ := List.cons.inj part_eq
        simp only [byteLength_append, byteLength_cons] at upper
        omega
  · rw [byteLength_append] at lower
    omega

/-- What is left of a text after a cut is text. -/
theorem IsCut.exists_drop {text : List Char} {place : Nat} (cut : IsCut text place) :
    ∃ rest, (encode text).drop place = encode rest := by
  obtain ⟨before, after, rfl, rfl⟩ := cut
  exact ⟨after, by rw [encode_append, ← length_encode, List.drop_left]⟩

/-- What is between two cuts of a text is text. -/
theorem IsCut.exists_between {text : List Char} {start stop : Nat} (first : IsCut text start)
    (second : IsCut text stop) (ordered : start ≤ stop) :
    ∃ part, ((encode text).drop start).take (stop - start) = encode part := by
  obtain ⟨before, after, rfl, rfl⟩ := first
  obtain ⟨before', after', split, rfl⟩ := second
  rw [encode_append, ← length_encode before, List.drop_left]
  rcases List.append_eq_append_iff.mp split with ⟨part, rfl, rfl⟩ | ⟨part, rfl, rfl⟩
  · exact ⟨part, by simp [encode_append]⟩
  · rw [byteLength_append] at ordered
    have empty : byteLength part = 0 := by omega
    exact ⟨[], by simp [byteLength_eq_zero empty]⟩

end IslandSlots.Text
