import IslandSlots.Proofs.Template.Openings
import IslandSlots.Proofs.Text.Runs

/-!
# Values of attributes as they are written

The value of an attribute is what stands between its quotes, or the run up to the next blank or
bracket, and it is kept character by character. Only a run without quotes may be different: it is
cut inside the first character that has a blank byte, whose bytes before that one then show as a
replacement character.
-/

namespace IslandSlots

open Text

/-! ## Written values -/

/-- Whether a character may stand in a value without quotes: it is no `>`, and none of its bytes is
blank. -/
def isValueChar (c : Char) : Bool :=
  c != '>' && (String.utf8EncodeChar c).all (!isBlankByte ·)

/-- Whether a character is blank and a byte by itself. -/
def isBlankAscii (c : Char) : Bool :=
  isBlank c && c.toNat < 128

/-- How the value of an attribute is written behind its `=`, between quotes or without, what is
behind that, and which value it is. -/
inductive ValueEnds : Option Char → List Char → List Char → List Char → Prop where
  /-- A value between quotes is all that stands there. -/
  | quoted {q : Char} {run : List Char} (behind : List Char) :
      q = '"' ∨ q = '\'' → q ∉ run → ValueEnds (some q) run behind run
  /-- A value without quotes goes up to a blank or the end of the tag. -/
  | bare {run : List Char} {c : Char} (behind : List Char) :
      run ≠ [] → (∀ d ∈ run, isValueChar d) → run.head? ≠ some '"' → run.head? ≠ some '\'' →
        isBlankAscii c ∨ c = '>' → ValueEnds none run (c :: behind) run
  /-- A longer character with a blank byte cuts it short. -/
  | cut {run : List Char} {c : Char} (behind : List Char) :
      (∀ d ∈ run, isValueChar d) → run.head? ≠ some '"' → run.head? ≠ some '\'' →
        128 ≤ c.toNat → isValueChar c = false →
          ValueEnds none run (c :: behind) (run ++ [replacement])

/-- An attribute with a value as it is written. -/
structure WrittenAttribute where
  /-- The name, with the mark of its kind. -/
  name : List Char
  /-- The blanks in front of the `=`. -/
  gap : List Char
  /-- The blanks behind the `=`. -/
  blanks : List Char
  /-- The quote at both ends of the value, if there is one. -/
  quote : Option Char
  /-- The characters of the value. -/
  run : List Char

/-- The characters of the attribute. -/
def WrittenAttribute.text (written : WrittenAttribute) : List Char :=
  written.name ++ written.gap ++ '=' :: (written.blanks ++ written.quote.toList ++ written.run ++
    written.quote.toList)

/-- Whether the value is cut inside the character behind it. -/
def WrittenAttribute.IsCut (written : WrittenAttribute) (behind : List Char) : Prop :=
  written.quote = none ∧ behind.head?.any (128 ≤ ·.toNat)

/-- An attribute with a value is read where it is written. -/
structure WrittenAttribute.Reads (written : WrittenAttribute) (behind : List Char)
    (attr : TemplateAttribute) (value : String) : Prop where
  /-- The name tells the kind. -/
  named : TemplateAttribute.classify written.name = (attr.kind, attr.name.toList)
  /-- There are only blanks around the `=`. -/
  blank : ∀ c ∈ written.gap ++ written.blanks, isBlankAscii c
  /-- The value ends where it should, or is cut. -/
  ends : ValueEnds written.quote written.run behind value.toList

theorem ValueEnds.eq_run_iff {quote : Option Char} {run behind value : List Char}
    (ends : ValueEnds quote run behind value) :
    (value = run ↔ ¬(quote = none ∧ behind.head?.any (128 ≤ ·.toNat))) := by
  cases ends with
  | quoted behind quotes never => simp
  | bare behind filled all double single stops =>
      rename_i c
      have ascii : c.toNat < 128 := by
        rcases stops with blank | rfl
        · simpa using (Bool.and_eq_true_iff.mp blank).2
        · decide
      simp [Nat.not_le.mpr ascii]
  | cut behind all double single large other => simp [large]

/-- Where a value is cut, it is short of the character behind it. -/
theorem ValueEnds.eq_of_cut {quote : Option Char} {run behind value : List Char}
    (ends : ValueEnds quote run behind value)
    (cut : quote = none ∧ behind.head?.any (128 ≤ ·.toNat)) : value = run ++ [replacement] := by
  cases ends with
  | quoted => simp at cut
  | bare behind filled all double single stops =>
      have same := ValueEnds.bare behind filled all double single stops
      exact absurd cut (same.eq_run_iff.mp rfl)
  | cut => rfl

namespace TemplateAttribute

/-! ## Reading values of text -/

set_option maxRecDepth 20000 in
theorem lt_of_isNameByte : ∀ b : UInt8, isNameByte b → b < 0x80 :=
  forall_byte (by decide)

set_option maxRecDepth 20000 in
theorem lt_of_isBlankByte : ∀ b : UInt8, isBlankByte b → b < 0xC0 :=
  forall_byte (by decide)

set_option maxRecDepth 20000 in
theorem isValueByte_of_le : ∀ b : UInt8, 0xC0 ≤ b → isValueByte b :=
  forall_byte (by decide)

set_option maxRecDepth 20000 in
theorem isBlankAscii_byteChar : ∀ b : UInt8, isBlankByte b → b < 0x80 → isBlankAscii (byteChar b) :=
  forall_byte (by decide)

/-- A character may stand in a value without quotes if all its bytes may. -/
theorem madeOf_isValueByte (c : Char) : madeOf isValueByte c = isValueChar c := by
  have bracket : c = '>' ↔ charByte '>' ∈ String.utf8EncodeChar c := by
    constructor
    · rintro rfl
      decide
    · exact fun found => eq_byteChar_of_mem found (by decide)
  rw [Bool.eq_iff_iff, madeOf, isValueChar, Bool.and_eq_true, bne_iff_ne, ne_eq, bracket,
    List.all_eq_true, List.all_eq_true]
  simp only [isValueByte, Bool.and_eq_true, bne_iff_ne]
  constructor
  · exact fun all => ⟨fun found => (all _ found).2 rfl, fun b found => (all b found).1⟩
  · rintro ⟨other, solid⟩ b found
    exact ⟨solid b found, fun same => other (same ▸ found)⟩

/-- A value between quotes is read as the characters between them. -/
theorem readValue_quoted {text : List Char} {q : UInt8} {inside value rest : List UInt8}
    (quotes : q = charByte '"' ∨ q = charByte '\'') (encoded : encode text = q :: inside)
    (value_eq : inside.takeWhile (· != q) = value)
    (rest_eq : (inside.dropWhile (· != q)).drop 1 = rest) (filled : rest ≠ []) :
    ∃ run behind, text = byteChar q :: (run ++ byteChar q :: behind) ∧ value = encode run ∧
      rest = encode behind ∧ byteChar q ∉ run := by
  have ascii : q < 0x80 := by rcases quotes with rfl | rfl <;> decide
  have single : String.utf8EncodeChar (byteChar q) = [q] := utf8EncodeChar_ofNat ascii
  obtain ⟨inner, rfl, rfl⟩ := exists_cons_of_encode encoded ascii
  obtain ⟨taken, dropped⟩ := span_encode (toldByFirst_ne ascii) inner
  rw [taken] at value_eq
  rw [dropped] at rest_eq
  have split := List.takeWhile_append_dropWhile (p := madeOf (· != q)) (l := inner)
  have never : byteChar q ∉ inner.takeWhile (madeOf (· != q)) := by
    intro found
    have made := List.mem_takeWhile_imp found
    rw [madeOf, single] at made
    simp at made
  cases behind_eq : inner.dropWhile (madeOf (· != q)) with
  | nil =>
      rw [behind_eq] at rest_eq
      exact absurd rest_eq.symm filled
  | cons c behind =>
      have stops : madeOf (· != q) c = false := by
        simpa [behind_eq] using List.head_dropWhile_not (madeOf (· != q)) (l := inner)
          (by simp [behind_eq])
      obtain ⟨b, member, same⟩ := List.all_eq_false.mp stops
      obtain rfl : b = q := by simpa using same
      obtain rfl := eq_byteChar_of_mem member ascii
      rw [behind_eq] at rest_eq split
      rw [encode, List.flatMap_cons, single] at rest_eq
      exact ⟨_, behind, by rw [split], value_eq.symm, rest_eq.symm, never⟩

/-- A character that ends a value is no part of it if it is a byte by itself, and shows as a
replacement character otherwise. -/
theorem takeWhile_isValueByte {c : Char} (stops : isValueChar c = false) :
    ((isBlankAscii c ∨ c = '>') ∧
      ∀ rest, (String.utf8EncodeChar c ++ rest).takeWhile isValueByte = []) ∨
    (128 ≤ c.toNat ∧
      ∀ rest, decode ((String.utf8EncodeChar c ++ rest).takeWhile isValueByte) = [replacement]) := by
  obtain ⟨b, member, other⟩ : ∃ b ∈ String.utf8EncodeChar c, ¬isValueByte b := by
    rw [← madeOf_isValueByte] at stops
    exact List.all_eq_false.mp stops
  rcases utf8EncodeChar_cases c with ⟨only, encoded, ascii⟩ | ⟨first, more, encoded, begins, large⟩
  · obtain rfl := List.mem_singleton.mp (encoded ▸ member)
    refine .inl ⟨?_, fun rest => ?_⟩
    · obtain rfl := eq_byteChar_of_mem member ascii
      rcases blank : isBlankByte b with _ | _
      · have bracket : b = charByte '>' := by simpa [isValueByte, blank] using other
        exact .inr (bracket ▸ rfl)
      · exact .inl (isBlankAscii_byteChar b blank ascii)
    · rw [encoded, List.singleton_append, List.takeWhile_cons_of_neg other]
  · refine .inr ⟨large, fun rest => ?_⟩
    -- The first byte is taken and the blank one is not.
    have first_fits : isValueByte first := isValueByte_of_le first begins
    have split := List.takeWhile_append_dropWhile (p := isValueByte) (l := String.utf8EncodeChar c)
    have left : (String.utf8EncodeChar c).dropWhile isValueByte ≠ [] :=
      fun all => other (List.dropWhile_eq_nil_iff.mp all b member)
    have taken : (String.utf8EncodeChar c ++ rest).takeWhile isValueByte =
        (String.utf8EncodeChar c).takeWhile isValueByte := by
      have positive := List.length_pos_iff.mpr left
      have lengths := congrArg List.length split
      rw [List.length_append] at lengths
      rw [List.takeWhile_append, if_neg (by omega)]
    have part_filled : (String.utf8EncodeChar c).takeWhile isValueByte ≠ [] := by
      simp [encoded, first_fits]
    rw [taken]
    exact decode_part split.symm part_filled left

/-- A value without quotes is read as a run of characters, and as part of the next one if that has
blank bytes. -/
theorem readValue_bare {text : List Char} (bare : (encode text).takeWhile isValueByte ≠ [])
    (filled : (encode text).dropWhile isValueByte ≠ []) (double : text.head? ≠ some '"')
    (single : text.head? ≠ some '\'') :
    ∃ run behind, text = run ++ behind ∧ (encode text).dropWhile isValueByte <:+ encode behind ∧
      ValueEnds none run behind (decode ((encode text).takeWhile isValueByte)) := by
  have split := List.takeWhile_append_dropWhile (p := isValueChar) (l := text)
  generalize run_eq : text.takeWhile isValueChar = run at split
  have all : ∀ d ∈ run, isValueChar d := fun d found => List.mem_takeWhile_imp (run_eq ▸ found)
  have kept : ∀ b ∈ encode run, isValueByte b := by
    intro b found
    obtain ⟨d, member, inside⟩ := List.mem_flatMap.mp found
    have made := all d member
    rw [← madeOf_isValueByte] at made
    exact List.all_eq_true.mp made b inside
  cases behind_eq : text.dropWhile isValueChar with
  | nil =>
      rw [behind_eq, List.append_nil] at split
      rw [← split, List.dropWhile_eq_nil_iff.mpr kept] at filled
      exact absurd rfl filled
  | cons c behind =>
      have stops : isValueChar c = false := by
        simpa [behind_eq] using List.head_dropWhile_not isValueChar (l := text) (by simp [behind_eq])
      rw [behind_eq] at split
      have bytes_eq : encode text = encode run ++ (String.utf8EncodeChar c ++ encode behind) := by
        rw [← split, encode_append]
        rfl
      have no_quote {q : Char} (other : text.head? ≠ some q) : run.head? ≠ some q := by
        cases run with
        | nil => simp
        | cons first run => rwa [← split] at other
      rw [bytes_eq, List.takeWhile_append_of_pos kept] at bare ⊢
      rw [List.dropWhile_append_of_pos kept]
      refine ⟨run, c :: behind, split.symm, List.dropWhile_suffix _, ?_⟩
      rw [decode_encode_append]
      rcases takeWhile_isValueByte stops with ⟨ascii, nothing⟩ | ⟨large, part⟩
      · rw [nothing, List.append_nil] at bare
        rw [nothing, decode, decodeFrom, List.append_nil]
        exact .bare behind (fun empty => bare (by rw [empty]; rfl)) all (no_quote double)
          (no_quote single) ascii
      · rw [part]
        exact .cut behind all (no_quote double) (no_quote single) large stops

/-- A value that bytes of text begin with is written in the text. -/
theorem exists_valueEnds {text : List Char} {value rest : List UInt8}
    (found : readValue (encode text) = (some value, rest)) (filled : rest ≠ []) :
    ∃ quote run behind, text = quote.toList ++ run ++ quote.toList ++ behind ∧
      rest <:+ encode behind ∧ ValueEnds quote run behind (decode value) := by
  cases encoded : encode text with
  | nil =>
      rw [encoded] at found
      cases found
  | cons b inside =>
      rw [encoded, readValue] at found
      split at found
      · rename_i quotes
        obtain ⟨value_eq, rest_eq⟩ := Prod.mk.inj found
        have quotes : b = charByte '"' ∨ b = charByte '\'' := by simpa using quotes
        obtain ⟨run, behind, rfl, rfl, rfl, never⟩ :=
          readValue_quoted quotes encoded (Option.some.inj value_eq) rest_eq filled
        refine ⟨some (byteChar b), run, behind, by simp, List.suffix_refl _, ?_⟩
        rw [decode_encode]
        refine .quoted behind (quotes.imp ?_ ?_) never
        · exact fun double => congrArg byteChar double
        · exact fun single => congrArg byteChar single
      · rename_i unquoted
        split at found
        · rename_i fits
          obtain ⟨value_eq, rfl⟩ := Prod.mk.inj found
          obtain rfl := Option.some.inj value_eq
          have taken : (encode text).takeWhile isValueByte = b :: inside.takeWhile isValueByte := by
            rw [encoded, List.takeWhile_cons_of_pos fits]
          have dropped : (encode text).dropWhile isValueByte = inside.dropWhile isValueByte := by
            rw [encoded, List.dropWhile_cons_of_pos fits]
          have no_quote {q : Char} (single : String.utf8EncodeChar q = [charByte q])
              (other : b ≠ charByte q) : text.head? ≠ some q := by
            intro starts
            obtain ⟨behind, rfl⟩ := List.head?_eq_some_iff.mp starts
            rw [encode, List.flatMap_cons, single] at encoded
            exact other (List.cons.inj encoded).1.symm
          simp only [Bool.or_eq_true, beq_iff_eq, not_or] at unquoted
          obtain ⟨run, behind, rfl, suffix, ends⟩ := readValue_bare (by rw [taken]; simp)
            (by rwa [dropped]) (no_quote rfl unquoted.1) (no_quote rfl unquoted.2)
          rw [taken] at ends
          exact ⟨none, run, behind, by simp, dropped ▸ suffix, ends⟩
        · cases found

/-- Blanks that are bytes by themselves. -/
theorem isBlankAscii_of_madeOf {c : Char} (made : madeOf isBlankByte c) : isBlankAscii c := by
  have all := List.all_eq_true.mp made
  rcases utf8EncodeChar_cases c with ⟨b, encoded, ascii⟩ | ⟨b, more, encoded, begins, -⟩
  · have member : b ∈ String.utf8EncodeChar c := encoded ▸ List.mem_cons_self
    rw [eq_byteChar_of_mem member ascii]
    exact isBlankAscii_byteChar b (all b member) ascii
  · have low := lt_of_isBlankByte b (all b (encoded ▸ List.mem_cons_self))
    exact absurd low (UInt8.not_lt.mpr begins)

/-- Blanks at the front of bytes of text are characters. -/
theorem exists_blanks (text : List Char) :
    ∃ blanks, (∀ c ∈ blanks, isBlankAscii c) ∧ ∃ solid, text = blanks ++ solid ∧
      (encode text).dropWhile isBlankByte = encode solid :=
  ⟨_, fun _ found => isBlankAscii_of_madeOf (List.mem_takeWhile_imp found), _,
    List.takeWhile_append_dropWhile.symm, (span_encode (toldByFirst_of_lt lt_of_isBlankByte) text).2⟩

/-- An attribute with a value that bytes of text begin with is written in the text. -/
theorem exists_written {text : List Char} {rest : List UInt8} {attr : TemplateAttribute}
    {value : String} (found : read? (encode text) = some (attr, rest))
    (valued : attr.value = some value) (filled : rest ≠ []) :
    ∃ written behind, text = WrittenAttribute.text written ++ behind ∧ rest <:+ encode behind ∧
      written.Reads behind attr value := by
  obtain ⟨taken, dropped⟩ := span_encode (toldByFirst_of_ascii lt_of_isNameByte) text
  have split := List.takeWhile_append_dropWhile (p := madeOf isNameByte) (l := text)
  simp only [read?, taken, dropped] at found
  generalize text.takeWhile (madeOf isNameByte) = name at found split
  generalize text.dropWhile (madeOf isNameByte) = assigned at found split
  split at found
  · cases found
  · generalize assigned_eq : readAssignment (encode assigned) = result at found
    obtain ⟨value?, left⟩ := result
    obtain ⟨rfl, rfl⟩ := Prod.mk.inj (Option.some.inj found)
    simp only [ofWritten, Option.map_eq_some_iff] at valued
    obtain ⟨value_bytes, rfl, rfl⟩ := valued
    obtain ⟨gap, gap_blank, solid, rfl, solid_eq⟩ := exists_blanks assigned
    rw [readAssignment, solid_eq] at assigned_eq
    split at assigned_eq
    · rename_i b inside starts
      split at assigned_eq
      · rename_i equals
        obtain rfl := eq_of_beq equals
        obtain ⟨place, rfl, rfl⟩ := exists_cons_of_encode starts (by decide)
        obtain ⟨blanks, blanks_blank, start, rfl, start_eq⟩ := exists_blanks place
        rw [start_eq] at assigned_eq
        obtain ⟨quote, run, behind, rfl, suffix, ends⟩ := exists_valueEnds assigned_eq filled
        refine ⟨⟨name, gap, blanks, quote, run⟩, behind, ?_, suffix, ?_, ?_, ?_⟩
        · rw [← split]
          simp [WrittenAttribute.text, byteChar, charByte]
        · rw [ofWritten, decode_encode, String.toList_ofList]
        · exact List.forall_mem_append.mpr ⟨gap_blank, blanks_blank⟩
        · rwa [String.toList_ofList]
      · cases assigned_eq
    · cases assigned_eq

/-- Where an attribute begins in the bytes of a text, a character begins. -/
theorem exists_text_of_read? {text : List Char} {passed place rest : List UInt8}
    {attr : TemplateAttribute} (split : encode text = passed ++ place)
    (reads : read? place = some (attr, rest)) :
    ∃ before behind, text = before ++ behind ∧ byteLength before = passed.length ∧
      place = encode behind := by
  obtain ⟨b, more, rfl⟩ : ∃ b more, place = b :: more :=
    List.exists_cons_of_ne_nil (by rintro rfl; cases reads)
  have named : isNameByte b := by
    by_contra nameless
    rw [read?_eq_none_iff.mpr (by simpa using nameless)] at reads
    cases reads
  obtain ⟨before, behind, rfl, length_eq⟩ := (isCut_of_ascii split (lt_of_isNameByte b named)).1
  rw [encode_append] at split
  exact ⟨before, behind, rfl, length_eq,
    (List.append_inj split (by rw [length_encode, length_eq])).2.symm⟩

end TemplateAttribute

/-! ## Values of elements -/

namespace TemplatePiece

/-- Every attribute of an opening tag is read somewhere in it. -/
theorem exists_read?_of_mem {bytes : List UInt8} {rest : TagRest} {attr : TemplateAttribute}
    (found : tagRest? bytes = some rest) (member : attr ∈ rest.attributes) :
    ∃ front place after, bytes = front ++ place ∧ TemplateAttribute.read? place = some (attr, after) ∧
      charByte '>' :: rest.behind <:+ after := by
  have further {bytes place : List UInt8} {rest : TagRest} (suffix : place <:+ bytes)
      (later : ∃ front inner after, place = front ++ inner ∧
        TemplateAttribute.read? inner = some (attr, after) ∧ charByte '>' :: rest.behind <:+ after) :
      ∃ front inner after, bytes = front ++ inner ∧
        TemplateAttribute.read? inner = some (attr, after) ∧
          charByte '>' :: rest.behind <:+ after := by
    obtain ⟨front, rfl⟩ := suffix
    obtain ⟨inner_front, inner, after, rfl, reads, ends⟩ := later
    exact ⟨front ++ inner_front, inner, after, (List.append_assoc ..).symm, reads, ends⟩
  fun_induction tagRest? bytes generalizing rest with
  | case1 => cases found
  | case2 | case3 =>
      cases found
      cases member
  | case4 bytes b behind blanks =>
      rename_i induction
      exact further ((List.dropWhile_suffix _).trans
        ((List.suffix_cons b behind).trans (cons_suffix_of_dropWhile blanks)))
        (induction found member)
  | case5 bytes b behind blanks _ _ first after reads induction =>
      obtain ⟨more, more_eq, rfl⟩ := Option.map_eq_some_iff.mp found
      have here := cons_suffix_of_dropWhile blanks
      rcases List.mem_cons.mp member with rfl | later
      · obtain ⟨front, bytes_eq⟩ := here
        have ends : charByte '>' :: more.behind <:+ after := suffix_of_tagRest? more_eq
        exact ⟨front, b :: behind, after, bytes_eq.symm, reads, ends⟩
      · exact further ((TemplateAttribute.suffix_of_read? reads).trans here)
          (@induction more more_eq later)
  | case6 bytes b behind blanks _ _ _ induction =>
      exact further ((List.suffix_cons b behind).trans (cons_suffix_of_dropWhile blanks))
        (induction found member)

end TemplatePiece

namespace TemplateNode

open TemplateAttribute

/-- Every attribute with a value is written in the opening tag of its element, and the value is what
is written there, character by character, unless it has no quotes and is cut inside a character. -/
theorem value_written {base : Nat} {template : String} {nodes ancestors children : List TemplateNode}
    {opening : OpeningTag} {closing : Option Span} {attr : TemplateAttribute} {value : String}
    (found : forest base template = .ok nodes)
    (occurs : Occurs nodes ancestors (.element opening children closing))
    (member : attr ∈ opening.attributes) (valued : attr.value = some value) :
    ∃ before written behind, template.toList = before ++ WrittenAttribute.text written ++ behind ∧
      opening.span.start < base + byteLength before ∧
      base + byteLength (before ++ WrittenAttribute.text written) < opening.span.stop ∧
      written.Reads behind attr value ∧
      (value.toList = written.run ↔ ¬written.IsCut behind) ∧
      (written.IsCut behind → value.toList = written.run ++ [replacement]) := by
  obtain ⟨front, inside, back, bytes_eq, spelled, span_eq⟩ :=
    TemplatePiece.opening_of_mem_all (opening_mem_all found occurs)
  obtain ⟨slash, -, rest⟩ := spelled.rest
  obtain ⟨passed, place, after, inside_eq, reads, ends⟩ :=
    TemplatePiece.exists_read?_of_mem (rest back) member
  have split : encode template.toList =
      (front ++ charByte '<' :: bytes opening.tag ++ passed) ++ place := by
    rw [← bytes, bytes_eq]
    simp [← inside_eq]
  obtain ⟨before, text, text_eq, length_eq, rfl⟩ := exists_text_of_read? split reads
  obtain ⟨written, behind, rfl, suffix, written_reads⟩ :=
    exists_written reads valued (by rintro rfl; simp at ends)
  have lengths := congrArg List.length split
  have behind_length := suffix.length_le
  have tag_length := ends.length_le
  have inside_length := congrArg List.length inside_eq
  simp only [length_encode, List.length_append, List.length_cons, byteLength_append] at *
  refine ⟨before, written, behind, by rw [text_eq, List.append_assoc], ?_, ?_, written_reads, ?_, ?_⟩
  · rw [span_eq]
    simp only
    omega
  · rw [span_eq]
    simp only
    omega
  · exact written_reads.ends.eq_run_iff
  · exact written_reads.ends.eq_of_cut

/-- The opening tag of an element. -/
def opening? : TemplateNode → Option OpeningTag
  | .element opening _ _ => some opening
  | _ => none

/-- A forest whose roots have the given opening tags has elements for them. -/
theorem exists_root {base : Nat} {template : String} {openings : List OpeningTag}
    (roots : (fun nodes => nodes.filterMap opening?) <$> forest base template = .ok openings) :
    ∃ nodes, forest base template = .ok nodes ∧ ∀ opening ∈ openings,
      ∃ children closing, Occurs nodes [] (.element opening children closing) := by
  obtain ⟨nodes, found, rfl⟩ := map_eq_ok.mp roots
  refine ⟨nodes, found, fun opening member => ?_⟩
  obtain ⟨node, here, same⟩ := List.mem_filterMap.mp member
  cases node with
  | element opening children closing =>
      cases same
      exact ⟨children, closing, .root here⟩
  | _ => cases same

/-- A value without quotes in front of another attribute. -/
theorem value_written_noQuotes :
    let template := "<p a=\"é > à\" b=日本 c></p>"
    let opening : OpeningTag :=
      ⟨"p", [⟨.plain, "a", some "é > à"⟩, ⟨.plain, "b", some "日本"⟩, ⟨.plain, "c", none⟩], false,
        ⟨5, 31⟩⟩
    ∃ nodes children closing, forest 5 template = .ok nodes ∧
      Occurs nodes [] (.element opening children closing) ∧
      ⟨.plain, "b", some "日本"⟩ ∈ opening.attributes ∧
      ∃ before written behind, template.toList = before ++ WrittenAttribute.text written ++ behind ∧
        5 < 5 + byteLength before ∧ 5 + byteLength (before ++ WrittenAttribute.text written) < 31 ∧
        written.Reads behind ⟨.plain, "b", some "日本"⟩ "日本" := by
  intro template opening
  obtain ⟨nodes, found, roots⟩ := @exists_root 5 template [opening]
    (eq_ok_of_toOption (by decide +kernel))
  obtain ⟨children, closing, occurs⟩ := roots opening List.mem_cons_self
  have member : (⟨.plain, "b", some "日本"⟩ : TemplateAttribute) ∈ opening.attributes := by decide
  obtain ⟨before, written, behind, template_eq, begins, ends, reads, -⟩ :=
    value_written found occurs member rfl
  exact ⟨nodes, children, closing, found, occurs, member, before, written, behind, template_eq,
    begins, ends, reads⟩

/-- A letter with a blank byte is cut, and what is read of it stands nowhere in the template. -/
theorem value_written_blankByte :
    let template := "<a x=à></a>"
    let opening : OpeningTag := ⟨"a", [⟨.plain, "x", some "\uFFFD"⟩], false, ⟨0, 8⟩⟩
    ∃ nodes children closing, forest 0 template = .ok nodes ∧
      Occurs nodes [] (.element opening children closing) ∧
      ¬"\uFFFD".toList <:+: template.toList := by
  intro template opening
  obtain ⟨nodes, found, roots⟩ := @exists_root 0 template [opening]
    (eq_ok_of_toOption (by decide +kernel))
  obtain ⟨children, closing, occurs⟩ := roots opening List.mem_cons_self
  exact ⟨nodes, children, closing, found, occurs, by decide +kernel⟩

end TemplateNode

end IslandSlots
