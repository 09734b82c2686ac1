import IslandSlots.Markup.Token
import IslandSlots.Render.Kind
import Mathlib.Algebra.Ring.Parity
import Mathlib.Data.List.Count
import Mathlib.Data.List.TakeWhile

/-!
# Plain tags and texts

Tags, attributes and texts that are read back as they are written. A tag is plain when it is a name
whose content is no raw text. Attributes are plain when each `>` stands between double quotes, the
quotes are balanced, no blank stands at either end and no `/` at the last one. A text is plain when
no `<` is in it. A chunk that holds one plain tag or one plain text has that one token.
-/

namespace IslandSlots

/-- A name that begins an element whose content is no raw text. -/
structure Tag.IsPlain (tag : String) : Prop where
  /-- The first character is a lower-case letter. -/
  begins : tag.toList.head?.any Char.isLower
  /-- Every character may stand in a name. -/
  name : tag.toList.all Tag.isNameChar
  /-- The content is no raw text. -/
  content : Tag.isRawText tag = false

/-- A run of atoms shows as one character that is no dollar sign only if it is that character. -/
theorem Atom.render_eq_singleton {atoms : List Atom} {c : Char} (other : c ≠ '$') :
    Atom.render atoms = String.ofList [c] ↔ atoms = [.char c] := by
  rw [Atom.render, String.ofList_inj]
  cases atoms with
  | nil => simp
  | cons atom rest =>
      cases atom with
      | char d =>
          have shows : rest.flatMap Atom.chars = [] ↔ rest = [] := by
            cases rest with
            | nil => simp
            | cons atom rest => cases atom <;> simp [Atom.chars]
          simp [Atom.chars, shows]
      | hole expression => simp [Atom.chars, other.symm]

namespace Token

/-- Attributes that a start tag shows as they are. -/
structure AttributesPlain (attrs : String) : Prop where
  /-- There are no blanks at the ends. -/
  trimmed : trim (word attrs.toList) = word attrs.toList
  /-- Double quotes come in pairs. -/
  paired : Even (attrs.toList.count '"')
  /-- Each `>` stands between the quotes of a pair. -/
  quoted : ∀ before after, attrs.toList = before ++ '>' :: after → Odd (before.count '"')
  /-- No slash is last. -/
  unslashed : attrs.toList.getLast? ≠ some '/'

/-- A text that shows as one token. -/
structure TextPlain (content : String) : Prop where
  /-- There is something in it. -/
  nonempty : content ≠ ""
  /-- Nothing in it begins a tag or a comment. -/
  unbracketed : '<' ∉ content.toList

theorem leadingName_word {chars : List Char} {rest : List Atom}
    (name : ∀ c ∈ chars, Tag.isNameChar c) (ends : leadingName rest = []) :
    leadingName (word chars ++ rest) = chars := by
  induction chars with
  | nil => exact ends
  | cons c chars induction =>
      have tail := induction fun c found => name c (List.mem_cons_of_mem _ found)
      rw [word] at tail
      rw [word, List.map_cons, List.cons_append, leadingName, if_pos (name c List.mem_cons_self),
        tail]

/-- The inside of a start tag: double quotes come in pairs, and each `>` stands between those of a
pair. `quotes` says whether a quote is open in front of it. -/
structure IsInside (quotes : Bool) (inside : List Atom) : Prop where
  /-- Double quotes come in pairs. -/
  paired : Even (quotes.toNat + inside.count (.char '"'))
  /-- Each `>` stands between the quotes of a pair. -/
  quoted : ∀ before after, inside = before ++ .char '>' :: after →
    Odd (quotes.toNat + before.count (.char '"'))

/-- A quote opens or closes what is between quotes. -/
private theorem toggle (quotes : Bool) (atom : Atom) (rest : List Atom) :
    ((quotes != decide (atom = .char '"')).toNat + rest.count (.char '"')) % 2 =
      (quotes.toNat + (atom :: rest).count (.char '"')) % 2 := by
  rw [List.count_cons]
  by_cases quote : atom = .char '"'
  · cases quotes <;> simp [quote] <;> omega
  · cases quotes <;> simp [quote]

theorem isInside_cons {quotes : Bool} {atom : Atom} {rest : List Atom} :
    IsInside quotes (atom :: rest) ↔ ¬(atom = .char '>' && !quotes) = true ∧
      IsInside (quotes != (atom = .char '"')) rest := by
  constructor
  · rintro ⟨paired, quoted⟩
    refine ⟨fun ends => ?_, ?_, fun before after split => ?_⟩
    · simp only [Bool.and_eq_true, decide_eq_true_eq, Bool.not_eq_true'] at ends
      obtain ⟨rfl, rfl⟩ := ends
      simpa using quoted [] rest rfl
    · rwa [Nat.even_iff, toggle, ← Nat.even_iff]
    · rw [Nat.odd_iff, toggle, ← Nat.odd_iff]
      exact quoted (atom :: before) after (by rw [split, List.cons_append])
  · rintro ⟨inside, paired, quoted⟩
    refine ⟨by rwa [Nat.even_iff, ← toggle, ← Nat.even_iff], fun before after split => ?_⟩
    cases before with
    | nil =>
        obtain ⟨rfl, -⟩ := List.cons.inj split
        cases quotes with
        | true => exact odd_one
        | false => exact absurd rfl inside
    | cons first before =>
        obtain ⟨rfl, rest_eq⟩ := List.cons.inj split
        rw [Nat.odd_iff, ← toggle, ← Nat.odd_iff]
        exact quoted before after rest_eq

/-- The inside of a start tag ends at the first `>` that is not between quotes. -/
theorem tagInside_eq_some_iff {quotes : Bool} {atoms inside : List Atom} :
    tagInside quotes atoms = some inside ↔
      ∃ behind, atoms = inside ++ .char '>' :: behind ∧ IsInside quotes inside := by
  induction atoms generalizing quotes inside with
  | nil => simp [tagInside]
  | cons atom rest induction =>
      rw [tagInside]
      by_cases ends : (atom = .char '>' && !quotes) = true
      · rw [if_pos ends]
        constructor
        · rintro found
          obtain rfl := Option.some.inj found
          simp only [Bool.and_eq_true, decide_eq_true_eq, Bool.not_eq_true'] at ends
          obtain ⟨rfl, rfl⟩ := ends
          exact ⟨rest, rfl, by simp, by simp⟩
        · rintro ⟨behind, split, inner⟩
          cases inside with
          | nil => rfl
          | cons first inside =>
              obtain ⟨rfl, -⟩ := List.cons.inj split
              exact absurd ends (isInside_cons.mp inner).1
      · rw [if_neg ends, Option.map_eq_some_iff]
        constructor
        · rintro ⟨inner, found, rfl⟩
          obtain ⟨behind, rfl, inner⟩ := induction.mp found
          exact ⟨behind, rfl, isInside_cons.mpr ⟨ends, inner⟩⟩
        · rintro ⟨behind, split, inner⟩
          cases inside with
          | nil =>
              obtain ⟨rfl, -⟩ := List.cons.inj split
              cases quotes with
              | true => simpa using inner.paired
              | false => exact absurd rfl ends
          | cons first inside =>
              obtain ⟨rfl, rest_eq⟩ := List.cons.inj split
              exact ⟨inside, induction.mpr ⟨behind, rest_eq, (isInside_cons.mp inner).2⟩, rfl⟩

theorem isInside_word {quotes : Bool} {chars : List Char}
    (paired : Even (quotes.toNat + chars.count '"'))
    (quoted : ∀ before after, chars = before ++ '>' :: after →
      Odd (quotes.toNat + before.count '"')) : IsInside quotes (word chars) := by
  have count_word (chars : List Char) : (word chars).count (.char '"') = chars.count '"' :=
    List.count_map_of_injective chars Atom.char (fun _ _ => Atom.char.inj) '"'
  refine ⟨by rwa [count_word], fun before after split => ?_⟩
  obtain ⟨front, back, rfl, rfl, back_eq⟩ := List.map_eq_append_iff.mp split
  obtain ⟨c, rest, rfl, same, -⟩ := List.map_eq_cons_iff.mp back_eq
  obtain rfl := Atom.char.inj same
  exact count_word front ▸ quoted front rest rfl

theorem tagInside_word {quotes : Bool} {chars : List Char}
    (paired : Even (quotes.toNat + chars.count '"'))
    (quoted : ∀ before after, chars = before ++ '>' :: after →
      Odd (quotes.toNat + before.count '"')) (rest : List Atom) :
    tagInside quotes (word chars ++ .char '>' :: rest) = some (word chars) :=
  tagInside_eq_some_iff.mpr ⟨rest, rfl, isInside_word paired quoted⟩

theorem trim_cons_blank {atom : Atom} (blank : isBlank atom) (atoms : List Atom) :
    trim (atom :: atoms) = trim atoms := by
  rw [trim, trim, List.dropWhile_cons, if_pos blank]

theorem render_word (chars : List Char) : Atom.render (word chars) = String.ofList chars := by
  rw [Atom.render, word]
  induction chars with
  | nil => rfl
  | cons c chars induction => simpa [Atom.chars] using induction

theorem atoms_pushText (content : String) :
    (Markup.empty.pushText content).atoms = word content.toList := by
  rw [Markup.pushText]
  split
  · rename_i empty
    rw [String.isEmpty_iff] at empty
    subst empty
    rfl
  · simp [Markup.empty, Markup.extend, Markup.atoms, Segment.atoms, word]

/-- The tokens that begin at a `<` are all there are when they take all that follows. -/
theorem ofAtoms_bracket {offset : Nat} {rest : List Atom} {lexeme : Lexeme}
    (read : readTag offset rest = .ok lexeme) (whole : rest.length ≤ lexeme.size) :
    ofAtoms offset (.char '<' :: rest) = .ok lexeme.tokens := by
  have none_left : rest.drop lexeme.size = [] := List.drop_eq_nil_of_le whole
  rw [ofAtoms, if_neg (by decide), read]
  simp only [bind, Except.bind, none_left, ofAtoms]
  simp [pure, Except.pure]

theorem beginsName_word {tag : String} (plain : Tag.IsPlain tag) (rest : List Atom) :
    beginsName (word tag.toList ++ rest) := by
  have begins := plain.begins
  cases chars_eq : tag.toList with
  | nil =>
      rw [chars_eq] at begins
      cases begins
  | cons c chars =>
      rw [chars_eq] at begins
      exact begins

/-- Atoms that begin with a name begin a start tag. -/
theorem readTag_of_beginsName (offset : Nat) {atoms : List Atom} (begins : beginsName atoms) :
    readTag offset atoms = readStartTag offset atoms := by
  rcases atoms with _ | ⟨c | expression, rest⟩
  · cases begins
  · have lower : c.isLower := begins
    have not_comment : '!' ≠ c := by
      rintro rfl
      exact absurd lower (by decide)
    have not_end : c ≠ '/' := by
      rintro rfl
      exact absurd lower (by decide)
    rw [readTag, if_neg (by simp [word, not_comment]), if_neg (by simp [not_end]), if_pos begins]
  · cases begins

theorem readEndTag_word {tag : String} (plain : Tag.IsPlain tag) (offset : Nat) :
    readEndTag offset (word tag.toList ++ [Atom.char '>']) =
      .ok ⟨[.closing tag], tag.toList.length + 2⟩ := by
  have name_eq : leadingName (word tag.toList ++ [Atom.char '>']) = tag.toList :=
    leadingName_word (List.all_eq_true.mp plain.name) (by rfl)
  have behind : (word tag.toList ++ [Atom.char '>']).drop tag.toList.length = [Atom.char '>'] := by
    rw [List.drop_append_of_le_length (by simp [word])]
    simp [word]
  have no_blanks : blanks [Atom.char '>'] = 0 := by decide
  rw [readEndTag]
  simp only [name_eq, behind, no_blanks, Nat.add_zero, List.head?_cons, if_true,
    String.ofList_toList]

theorem attributes_word {attrs : String} (plain : AttributesPlain attrs) {inside : List Char}
    (trimmed : trim (word inside) = word attrs.toList) :
    attributes (word inside) = (attrs, false) := by
  have unslashed : ¬(word attrs.toList).getLast? = some (.char '/') := by
    rw [word, List.getLast?_map]
    intro slashed
    obtain ⟨c, last, same⟩ := Option.map_eq_some_iff.mp slashed
    cases same
    exact plain.unslashed last
  simp only [attributes, trimmed, if_neg unslashed, render_word, String.ofList_toList]

theorem readStartTag_word {tag attrs : String} (plain : Tag.IsPlain tag)
    (attrs_plain : AttributesPlain attrs) {inside : List Char}
    (trimmed : trim (word inside) = word attrs.toList)
    (closed : tagInside false (word inside ++ [Atom.char '>']) = some (word inside))
    (ends : (word inside ++ [Atom.char '>']).head?.any endsName)
    (stops : leadingName (word inside ++ [Atom.char '>']) = []) (offset : Nat) :
    readStartTag offset (word tag.toList ++ (word inside ++ [Atom.char '>'])) =
      .ok ⟨[.opening tag attrs (Tag.isVoid tag)], tag.toList.length + inside.length + 1⟩ := by
  have name_eq : leadingName (word tag.toList ++ (word inside ++ [Atom.char '>'])) = tag.toList :=
    leadingName_word (List.all_eq_true.mp plain.name) stops
  have behind : (word tag.toList ++ (word inside ++ [Atom.char '>'])).drop tag.toList.length =
      word inside ++ [Atom.char '>'] := by
    rw [List.drop_append_of_le_length (by simp [word])]
    simp [word]
  have length_eq : (word inside).length = inside.length := by simp [word]
  rw [readStartTag]
  simp only [name_eq, behind, ends, closed, attributes_word attrs_plain trimmed, plain.content,
    String.ofList_toList, length_eq]
  simp [pure, Except.pure]

end Token

namespace Markup

open Token

/-- A plain text is one token. -/
theorem tokens_text {content : String} (plain : TextPlain content) :
    (empty.pushText content).tokens = .ok [.text content] := by
  have all_text : ∀ atom ∈ word content.toList, isTextAtom atom := by
    intro atom found
    obtain ⟨c, in_content, rfl⟩ := List.mem_map.mp found
    have other : c ≠ '<' := fun same => plain.unbracketed (same ▸ in_content)
    simpa [isTextAtom] using other
  rw [tokens, atoms_pushText]
  cases atoms_eq : word content.toList with
  | nil =>
      rw [word, List.map_eq_nil_iff] at atoms_eq
      exact absurd (String.toList_eq_nil_iff.mp atoms_eq) plain.nonempty
  | cons atom atoms =>
      rw [atoms_eq] at all_text
      have rest_text : ∀ atom ∈ atoms, isTextAtom atom :=
        fun atom found => all_text atom (List.mem_cons_of_mem _ found)
      rw [ofAtoms, if_pos (all_text atom List.mem_cons_self)]
      simp only [List.takeWhile_eq_self_iff.mpr rest_text, List.dropWhile_eq_nil_iff.mpr rest_text,
        ofAtoms, ← atoms_eq, render_word, String.ofList_toList]
      rfl

/-- The end tag of a plain tag is one token. -/
theorem tokens_endTag {tag : String} (plain : Tag.IsPlain tag) :
    (empty.pushText ("</" ++ tag ++ ">")).tokens = .ok [.closing tag] := by
  have atoms_eq : word ("</" ++ tag ++ ">").toList =
      .char '<' :: .char '/' :: (word tag.toList ++ [Atom.char '>']) := by
    simp [word]
  have read : readTag 0 (.char '/' :: (word tag.toList ++ [Atom.char '>'])) =
      .ok ⟨[.closing tag], tag.toList.length + 2⟩ := by
    rw [readTag, if_neg (by simp [word]), if_pos (by simp [beginsName_word plain])]
    exact readEndTag_word plain 0
  rw [tokens, atoms_pushText, atoms_eq, ofAtoms_bracket read]
  simp [word]

/-- The start tag of a plain tag with plain attributes is one token. -/
theorem tokens_startTag {tag attrs : String} (plain : Tag.IsPlain tag)
    (attrs_plain : AttributesPlain attrs) :
    (empty.pushText (Kind.element tag attrs).label).tokens =
      .ok [.opening tag attrs (Tag.isVoid tag)] := by
  obtain ⟨inside, label_eq, trimmed, closed, ends, stops⟩ : ∃ inside : List Char,
      (Kind.element tag attrs).label.toList = '<' :: (tag.toList ++ (inside ++ ['>'])) ∧
      trim (word inside) = word attrs.toList ∧
      tagInside false (word inside ++ [Atom.char '>']) = some (word inside) ∧
      (word inside ++ [Atom.char '>']).head?.any endsName ∧
      leadingName (word inside ++ [Atom.char '>']) = [] := by
    by_cases no_attrs : attrs = ""
    · subst no_attrs
      exact ⟨[], by simp [Kind.label], by rfl, by rfl, by rfl, by rfl⟩
    · refine ⟨' ' :: attrs.toList, ?_, ?_, ?_, by rfl, by rfl⟩
      · simp [Kind.label, no_attrs]
      · exact (trim_cons_blank (by decide) _).trans attrs_plain.trimmed
      · apply tagInside_word
        · simpa using attrs_plain.paired
        · intro before after split
          cases before with
          | nil => cases split
          | cons c before =>
              obtain ⟨rfl, attrs_eq⟩ := List.cons.inj split
              simpa using attrs_plain.quoted before after attrs_eq
  have atoms_eq : word (Kind.element tag attrs).label.toList =
      .char '<' :: (word tag.toList ++ (word inside ++ [Atom.char '>'])) := by
    simp [word, label_eq]
  have read : readTag 0 (word tag.toList ++ (word inside ++ [Atom.char '>'])) =
      .ok ⟨[.opening tag attrs (Tag.isVoid tag)], tag.toList.length + inside.length + 1⟩ := by
    rw [readTag_of_beginsName 0 (beginsName_word plain _)]
    exact readStartTag_word plain attrs_plain trimmed closed ends stops 0
  rw [tokens, atoms_pushText, atoms_eq, ofAtoms_bracket read]
  simp [word]
  omega

theorem tokens_fragmentStart :
    (empty.pushText Marker.start.label).tokens = .ok [.fragmentStart] := by
  have read : readTag 0 (word "!--[-->".toList) = .ok ⟨[.fragmentStart], 7⟩ := by rfl
  rw [tokens, atoms_pushText]
  exact ofAtoms_bracket read (by decide)

theorem tokens_fragmentEnd :
    (empty.pushText Marker.stop.label).tokens = .ok [.fragmentEnd] := by
  have read : readTag 0 (word "!--]-->".toList) = .ok ⟨[.fragmentEnd], 7⟩ := by rfl
  rw [tokens, atoms_pushText]
  exact ofAtoms_bracket read (by decide)

end Markup

end IslandSlots
