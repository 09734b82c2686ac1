import IslandSlots.Proofs.Markup.Plain
import Mathlib.Data.List.DropRight

/-!
# Holes are opaque

Chunks that differ in nothing but the expressions of their holes have the same tokens at the same
places, or the same fault at the same place. What a token shows is a stretch of its chunk, so each
hole in it shows its own expression. No reader of a chunk tells one hole from another: whatever it
finds in one of two such chunks, it finds at the same place of the other one.
-/

namespace IslandSlots

namespace Atom

/-- The atom with the expression of a hole taken out. -/
def emptied : Atom → Atom
  | .char c => .char c
  | .hole _ => .hole ""

/-- Runs of atoms with the same characters and with holes at the same places. -/
def Alike (first second : List Atom) : Prop :=
  first.map emptied = second.map emptied

@[simp]
theorem emptied_eq_char {atom : Atom} {c : Char} : atom.emptied = .char c ↔ atom = .char c := by
  cases atom <;> simp [emptied]

@[simp]
theorem isChar_emptied (accepts : Char → Bool) (atom : Atom) :
    isChar accepts atom.emptied = isChar accepts atom := by
  cases atom <;> rfl

namespace Alike

variable {first second : List Atom}

theorem length_eq (alike : Alike first second) : first.length = second.length := by
  simpa using congrArg List.length alike

theorem drop (alike : Alike first second) (count : Nat) :
    Alike (first.drop count) (second.drop count) := by
  have dropped := congrArg (List.drop count) alike
  simpa [Alike, List.map_drop] using dropped

theorem take (alike : Alike first second) (count : Nat) :
    Alike (first.take count) (second.take count) := by
  have taken := congrArg (List.take count) alike
  simpa [Alike, List.map_take] using taken

theorem reverse (alike : Alike first second) : Alike first.reverse second.reverse := by
  have reversed := congrArg List.reverse alike
  simpa [Alike, List.map_reverse] using reversed

/-- The runs go on alike for as long as a class of atoms does that takes holes all alike. -/
theorem takeWhile {accepts : Atom → Bool} (blind : ∀ atom, accepts atom.emptied = accepts atom)
    (alike : Alike first second) : Alike (first.takeWhile accepts) (second.takeWhile accepts) := by
  have taken := congrArg (List.takeWhile accepts) alike
  have same : accepts ∘ emptied = accepts := funext blind
  simpa [Alike, List.takeWhile_map, same] using taken

theorem dropWhile {accepts : Atom → Bool} (blind : ∀ atom, accepts atom.emptied = accepts atom)
    (alike : Alike first second) : Alike (first.dropWhile accepts) (second.dropWhile accepts) := by
  have dropped := congrArg (List.dropWhile accepts) alike
  have same : accepts ∘ emptied = accepts := funext blind
  simpa [Alike, List.dropWhile_map, same] using dropped

/-- What begins one of the runs passes a test that takes holes all alike, or neither does. -/
theorem any_head? {accepts : Atom → Bool} (blind : ∀ atom, accepts atom.emptied = accepts atom)
    (alike : Alike first second) : first.head?.any accepts = second.head?.any accepts := by
  have heads := congrArg (fun atoms => atoms.head?.any accepts) alike
  simpa [Option.any_map, blind] using heads

theorem head?_eq_char (alike : Alike first second) (c : Char) :
    first.head? = some (.char c) ↔ second.head? = some (.char c) := by
  have heads := congrArg (fun atoms => atoms.head? = some (Atom.char c)) alike
  simpa using heads

theorem getLast?_eq_char (alike : Alike first second) (c : Char) :
    first.getLast? = some (.char c) ↔ second.getLast? = some (.char c) := by
  have lasts := congrArg (fun atoms => atoms.getLast? = some (Atom.char c)) alike
  simpa using lasts

/-- A run of one character is alike to itself only. -/
theorem eq_char (alike : Alike first second) (c : Char) :
    first = [.char c] ↔ second = [.char c] := by
  have emptied_eq : ∀ atoms : List Atom, atoms.map emptied = [.char c] ↔ atoms = [.char c] := by
    intro atoms
    simp [List.map_eq_singleton_iff]
  rw [← emptied_eq first, ← emptied_eq second, alike]

end Alike

end Atom

namespace Token

open Atom

/-! ## Stretches -/

/-- A stretch of a run of atoms: how many atoms are before it, and how many are in it. -/
structure Stretch where
  /-- The atoms before the stretch, counted. -/
  start : Nat
  /-- The atoms in the stretch, counted. -/
  length : Nat
  deriving DecidableEq, Repr

/-- The atoms of a run that are in a stretch. -/
def Stretch.of (stretch : Stretch) (atoms : List Atom) : List Atom :=
  (atoms.drop stretch.start).take stretch.length

/-- Parts of two runs are alike and are the same stretch of them. -/
structure Matched (first second part other : List Atom) : Prop where
  /-- The parts are alike. -/
  alike : Alike part other
  /-- They are the same stretch. -/
  same : ∃ stretch : Stretch, part = stretch.of first ∧ other = stretch.of second

namespace Matched

variable {first second part other : List Atom}

theorem refl (alike : Alike first second) : Matched first second first second where
  alike := alike
  same := ⟨⟨0, first.length⟩, by simp [Stretch.of], by simp [Stretch.of, alike.length_eq]⟩

theorem drop (matched : Matched first second part other) (count : Nat) :
    Matched first second (part.drop count) (other.drop count) where
  alike := matched.alike.drop count
  same := by
    obtain ⟨stretch, rfl, rfl⟩ := matched.same
    exact ⟨⟨stretch.start + count, stretch.length - count⟩,
      by simp [Stretch.of, List.drop_take], by simp [Stretch.of, List.drop_take]⟩

theorem take (matched : Matched first second part other) (count : Nat) :
    Matched first second (part.take count) (other.take count) where
  alike := matched.alike.take count
  same := by
    obtain ⟨stretch, rfl, rfl⟩ := matched.same
    exact ⟨⟨stretch.start, min count stretch.length⟩,
      by simp [Stretch.of, List.take_take], by simp [Stretch.of, List.take_take]⟩

/-- Parts that begin matched parts are matched if they are alike. -/
theorem of_prefix {front back : List Atom} (matched : Matched first second part other)
    (alike : Alike front back) (begins : front <+: part) (other_begins : back <+: other) :
    Matched first second front back := by
  rw [List.prefix_iff_eq_take.mp begins, List.prefix_iff_eq_take.mp other_begins, alike.length_eq]
  exact matched.take back.length

/-- Parts that end matched parts are matched if they are alike. -/
theorem of_suffix {front back : List Atom} (matched : Matched first second part other)
    (alike : Alike front back) (ends : front <:+ part) (other_ends : back <:+ other) :
    Matched first second front back := by
  rw [List.suffix_iff_eq_drop.mp ends, List.suffix_iff_eq_drop.mp other_ends, alike.length_eq,
    matched.alike.length_eq]
  exact matched.drop (other.length - back.length)

theorem takeWhile {accepts : Atom → Bool} (blind : ∀ atom, accepts atom.emptied = accepts atom)
    (matched : Matched first second part other) :
    Matched first second (part.takeWhile accepts) (other.takeWhile accepts) :=
  matched.of_prefix (matched.alike.takeWhile blind) (List.takeWhile_prefix accepts)
    (List.takeWhile_prefix accepts)

theorem dropWhile {accepts : Atom → Bool} (blind : ∀ atom, accepts atom.emptied = accepts atom)
    (matched : Matched first second part other) :
    Matched first second (part.dropWhile accepts) (other.dropWhile accepts) :=
  matched.of_suffix (matched.alike.dropWhile blind) (List.dropWhile_suffix accepts)
    (List.dropWhile_suffix accepts)

/-- A part matched with one that has a first atom has one too, and no class of atoms that takes
holes all alike tells the two apart. -/
theorem exists_cons {atom : Atom} {rest : List Atom}
    (matched : Matched first second (atom :: rest) other) :
    ∃ head others, other = head :: others ∧
      (∀ accepts : Atom → Bool, (∀ atom, accepts atom.emptied = accepts atom) →
        accepts atom = accepts head) ∧ Matched first second rest others := by
  cases other with
  | nil => cases matched.alike.length_eq
  | cons head others =>
      have heads : atom.emptied = head.emptied := (List.cons.inj matched.alike).1
      refine ⟨head, others, rfl, fun accepts blind => ?_, matched.drop 1⟩
      rw [← blind atom, ← blind head, heads]

end Matched

/-! ## Readers take holes all alike -/

theorem isTextAtom_emptied (atom : Atom) : isTextAtom atom.emptied = isTextAtom atom := by
  cases atom <;> rfl

theorem isBlank_emptied (atom : Atom) : isBlank atom.emptied = isBlank atom :=
  isChar_emptied Text.isBlank atom

theorem endsName_emptied (atom : Atom) : endsName atom.emptied = endsName atom := by
  cases atom <;> rfl

theorem leadingName_emptied (atoms : List Atom) :
    leadingName (atoms.map emptied) = leadingName atoms := by
  induction atoms with
  | nil => rfl
  | cons atom rest induction =>
      cases atom with
      | char c => rw [List.map_cons, emptied, leadingName, leadingName, induction]
      | hole expression => rfl

theorem isPrefixOf_emptied (mark : List Char) (atoms : List Atom) :
    (word mark).isPrefixOf (atoms.map emptied) = (word mark).isPrefixOf atoms := by
  induction mark generalizing atoms with
  | nil => rfl
  | cons c mark induction =>
      cases atoms with
      | nil => rfl
      | cons atom rest =>
          have first : (Atom.char c == atom.emptied) = (Atom.char c == atom) := by
            rw [Bool.eq_iff_iff, beq_iff_eq, beq_iff_eq, eq_comm, emptied_eq_char, eq_comm]
          calc
            (word (c :: mark)).isPrefixOf ((atom :: rest).map emptied) =
                (Atom.char c == atom.emptied && (word mark).isPrefixOf (rest.map emptied)) := rfl
            _ = (Atom.char c == atom && (word mark).isPrefixOf rest) := by rw [first, induction]
            _ = (word (c :: mark)).isPrefixOf (atom :: rest) := rfl

theorem splitFirst?_emptied (mark : List Char) (atoms : List Atom) :
    Text.splitFirst? (word mark) (atoms.map emptied) =
      (Text.splitFirst? (word mark) atoms).map
        (Prod.map (List.map emptied) (List.map emptied)) := by
  induction atoms with
  | nil =>
      rw [List.map_nil, Text.splitFirst?]
      split <;> rfl
  | cons atom rest induction =>
      rw [List.map_cons, Text.splitFirst?, ← List.map_cons, isPrefixOf_emptied, Text.splitFirst?,
        induction]
      split
      · simp [List.map_drop]
      · cases Text.splitFirst? (word mark) rest <;> rfl

theorem tagInside_emptied (quotes : Bool) (atoms : List Atom) :
    tagInside quotes (atoms.map emptied) = (tagInside quotes atoms).map (List.map emptied) := by
  induction atoms generalizing quotes with
  | nil => rfl
  | cons atom rest induction =>
      rw [List.map_cons, tagInside, tagInside]
      simp only [emptied_eq_char, induction]
      split
      · rfl
      · cases tagInside (quotes != decide (atom = .char '"')) rest <;> rfl

/-! ## Readers of matched parts -/

namespace Matched

variable {first second part other : List Atom}

theorem leadingName_eq (matched : Matched first second part other) :
    leadingName part = leadingName other := by
  rw [← leadingName_emptied part, ← leadingName_emptied other, matched.alike]

theorem isPrefixOf_eq (matched : Matched first second part other) (mark : List Char) :
    (word mark).isPrefixOf part = (word mark).isPrefixOf other := by
  rw [← isPrefixOf_emptied mark part, ← isPrefixOf_emptied mark other, matched.alike]

theorem blanks_eq (matched : Matched first second part other) : blanks part = blanks other :=
  (matched.alike.takeWhile isBlank_emptied).length_eq

/-- A mark is found at the same place of matched parts, or in neither. -/
theorem splitFirst? (matched : Matched first second part other) (mark : List Char) :
    Option.Rel (fun found others => Matched first second found.1 others.1)
      (Text.splitFirst? (word mark) part) (Text.splitFirst? (word mark) other) := by
  have same :
      (Text.splitFirst? (word mark) part).map (Prod.map (List.map emptied) (List.map emptied)) =
        (Text.splitFirst? (word mark) other).map
          (Prod.map (List.map emptied) (List.map emptied)) := by
    rw [← splitFirst?_emptied, ← splitFirst?_emptied, matched.alike]
  cases part_split : Text.splitFirst? (word mark) part with
  | none =>
      rw [part_split, Option.map_none, eq_comm, Option.map_eq_none_iff] at same
      rw [same]
      exact .none
  | some found =>
      rw [part_split, Option.map_some, eq_comm, Option.map_eq_some_iff] at same
      obtain ⟨others, other_split, alike⟩ := same
      rw [other_split]
      have before : Alike found.1 others.1 := (congrArg Prod.fst alike).symm
      have part_eq := Text.eq_of_splitFirst? part_split
      have other_eq := Text.eq_of_splitFirst? other_split
      rw [List.append_assoc] at part_eq other_eq
      exact .some (matched.of_prefix before ⟨_, part_eq.symm⟩ ⟨_, other_eq.symm⟩)

/-- The insides of matched start tags end at the same place, or neither has an end. -/
theorem tagInside (matched : Matched first second part other) :
    Option.Rel (Matched first second) (Token.tagInside false part)
      (Token.tagInside false other) := by
  have same : (Token.tagInside false part).map (List.map emptied) =
      (Token.tagInside false other).map (List.map emptied) := by
    rw [← tagInside_emptied, ← tagInside_emptied, matched.alike]
  cases part_inside : Token.tagInside false part with
  | none =>
      rw [part_inside, Option.map_none, eq_comm, Option.map_eq_none_iff] at same
      rw [same]
      exact .none
  | some inside =>
      rw [part_inside, Option.map_some, eq_comm, Option.map_eq_some_iff] at same
      obtain ⟨others, other_inside, alike⟩ := same
      rw [other_inside]
      obtain ⟨behind, part_eq, -⟩ := tagInside_eq_some_iff.mp part_inside
      obtain ⟨other_behind, other_eq, -⟩ := tagInside_eq_some_iff.mp other_inside
      exact .some (matched.of_prefix alike.symm ⟨_, part_eq.symm⟩ ⟨_, other_eq.symm⟩)

theorem trimEnd (matched : Matched first second part other) :
    Matched first second (Token.trimEnd part) (Token.trimEnd other) := by
  have trimmed : Alike (Token.trimEnd part) (Token.trimEnd other) :=
    (matched.alike.reverse.dropWhile isBlank_emptied).reverse
  exact matched.of_prefix trimmed (List.rdropWhile_prefix isBlank part)
    (List.rdropWhile_prefix isBlank other)

theorem trim (matched : Matched first second part other) :
    Matched first second (Token.trim part) (Token.trim other) :=
  (matched.dropWhile isBlank_emptied).trimEnd

/-- The attributes of matched start tags are the same stretch, and a slash closes both tags or
neither. -/
theorem attributes (matched : Matched first second part other) :
    ∃ (stretch : Stretch) (slash : Bool),
      Token.attributes part = (Atom.render (stretch.of first), slash) ∧
        Token.attributes other = (Atom.render (stretch.of second), slash) := by
  have trimmed := matched.trim
  rw [Token.attributes, Token.attributes]
  simp only [trimmed.alike.getLast?_eq_char '/']
  by_cases slash : (Token.trim other).getLast? = some (.char '/')
  · have unslashed : Matched first second (Token.trim part).dropLast
        (Token.trim other).dropLast := by
      rw [List.dropLast_eq_take, List.dropLast_eq_take, trimmed.alike.length_eq]
      exact trimmed.take _
    obtain ⟨stretch, part_eq, other_eq⟩ := unslashed.trimEnd.same
    exact ⟨stretch, true, by rw [if_pos slash, part_eq], by rw [if_pos slash, other_eq]⟩
  · obtain ⟨stretch, part_eq, other_eq⟩ := trimmed.same
    exact ⟨stretch, false, by rw [if_neg slash, part_eq], by rw [if_neg slash, other_eq]⟩

end Matched

/-! ## Shapes of tokens -/

/-- A token with stretches of a chunk in place of what it shows. -/
inductive Shape where
  /-- A start tag. -/
  | opening (tag : String) (attrs : Stretch) (selfClosing : Bool)
  /-- An end tag. -/
  | closing (tag : String)
  /-- Text between tags. -/
  | text (content : Stretch)
  /-- The comment that begins a fragment. -/
  | fragmentStart
  /-- The comment that ends a fragment. -/
  | fragmentEnd
  /-- Any other comment. -/
  | comment (body : Stretch)
  deriving DecidableEq, Repr

/-- The token of a shape in a chunk with the given atoms. -/
def Shape.token (atoms : List Atom) : Shape → Token
  | .opening tag attrs selfClosing => .opening tag (Atom.render (attrs.of atoms)) selfClosing
  | .closing tag => .closing tag
  | .text content => .text (Atom.render (content.of atoms))
  | .fragmentStart => .fragmentStart
  | .fragmentEnd => .fragmentEnd
  | .comment body => .comment (Atom.render (body.of atoms))

/-- What is read at a `<` of one chunk and at the same place of another one: the same fault, or
tokens of the same shapes that take equally many atoms. -/
inductive ReadAlike (first second : List Atom) :
    Except MarkupError Lexeme → Except MarkupError Lexeme → Prop where
  | error (error : MarkupError) : ReadAlike first second (.error error) (.error error)
  | ok (shapes : List Shape) (size : Nat) :
      ReadAlike first second (.ok ⟨shapes.map (Shape.token first), size⟩)
        (.ok ⟨shapes.map (Shape.token second), size⟩)

namespace Matched

variable {first second part other : List Atom}

/-- A comment marks an end of a fragment only with a character of its own. -/
theorem ofComment (matched : Matched first second part other) :
    ∃ shape : Shape, Token.ofComment (Atom.render part) = shape.token first ∧
      Token.ofComment (Atom.render other) = shape.token second := by
  have shows (c : Char) (no_dollar : c ≠ '$') :
      Atom.render part = String.ofList [c] ↔ Atom.render other = String.ofList [c] := by
    rw [Atom.render_eq_singleton no_dollar, Atom.render_eq_singleton no_dollar,
      matched.alike.eq_char c]
  have starts : Atom.render part = "[" ↔ Atom.render other = "[" := shows '[' (by decide)
  have stops : Atom.render part = "]" ↔ Atom.render other = "]" := shows ']' (by decide)
  simp only [Token.ofComment, starts, stops]
  obtain ⟨stretch, part_eq, other_eq⟩ := matched.same
  split
  · exact ⟨.fragmentStart, rfl, rfl⟩
  · split
    · exact ⟨.fragmentEnd, rfl, rfl⟩
    · exact ⟨.comment stretch, by rw [part_eq, Shape.token], by rw [other_eq, Shape.token]⟩

theorem readComment (matched : Matched first second part other) (offset : Nat) :
    ReadAlike first second (Token.readComment offset part) (Token.readComment offset other) := by
  have split := matched.splitFirst? ['-', '-', '>']
  rw [Token.readComment, Token.readComment]
  generalize Text.splitFirst? (word ['-', '-', '>']) part = found at split
  generalize Text.splitFirst? (word ['-', '-', '>']) other = others at split
  cases split with
  | none => exact .error _
  | some body =>
      obtain ⟨shape, part_eq, other_eq⟩ := body.ofComment
      simp only [part_eq, other_eq, body.alike.length_eq]
      exact .ok [shape] _

theorem readEndTag (matched : Matched first second part other) (offset : Nat) :
    ReadAlike first second (Token.readEndTag offset part) (Token.readEndTag offset other) := by
  have behind := matched.drop (leadingName other).length
  have width_eq := behind.blanks_eq
  simp only [Token.readEndTag, matched.leadingName_eq, width_eq]
  generalize (leadingName other).length + blanks (other.drop (leadingName other).length) = width
  simp only [(matched.drop width).alike.head?_eq_char '>']
  split
  · exact .ok [.closing _] (width + 2)
  · exact .error _

theorem readRawText (matched : Matched first second part other) (tag : String) (offset : Nat) :
    (∃ error, Token.readRawText tag offset part = .error error ∧
        Token.readRawText tag offset other = .error error) ∨
      ∃ body others, Token.readRawText tag offset part = .ok body ∧
        Token.readRawText tag offset other = .ok others ∧ Matched first second body others := by
  have split := matched.splitFirst? ('<' :: '/' :: tag.toList)
  rw [Token.readRawText, Token.readRawText]
  generalize Text.splitFirst? (word ('<' :: '/' :: tag.toList)) part = found at split
  generalize Text.splitFirst? (word ('<' :: '/' :: tag.toList)) other = others at split
  cases split with
  | none => exact .inl ⟨_, rfl, rfl⟩
  | some body => exact .inr ⟨_, _, rfl, rfl, body⟩

theorem readStartTag (matched : Matched first second part other) (offset : Nat) :
    ReadAlike first second (Token.readStartTag offset part) (Token.readStartTag offset other) := by
  have behind := matched.drop (leadingName other).length
  rw [Token.readStartTag, Token.readStartTag]
  simp only [matched.leadingName_eq, behind.alike.any_head? endsName_emptied]
  split
  · exact .error _
  · have insides := behind.tagInside
    generalize Token.tagInside false (part.drop (leadingName other).length) = inside at insides
    generalize Token.tagInside false (other.drop (leadingName other).length) = others at insides
    cases insides with
    | none => exact .error _
    | some inner =>
        obtain ⟨stretch, slash, part_eq, other_eq⟩ := inner.attributes
        simp only [part_eq, other_eq, inner.alike.length_eq]
        split
        · -- The start tag has raw text behind it.
          rcases (matched.drop _).readRawText (String.ofList (leadingName other)) _ with
            ⟨error, part_read, other_read⟩ | ⟨body, others, part_read, other_read, raw⟩
          · rw [part_read, other_read]
            exact .error error
          · obtain ⟨content, body_eq, others_eq⟩ := raw.same
            rw [part_read, other_read]
            simp only [bind, Except.bind, List.isEmpty_iff_length_eq_zero, raw.alike.length_eq]
            split
            · exact .ok [.opening _ stretch _] _
            · rw [body_eq, others_eq]
              exact .ok [.opening _ stretch _, .text content] _
        · exact .ok [.opening _ stretch _] _

theorem beginsName_eq (matched : Matched first second part other) :
    beginsName part = beginsName other :=
  matched.alike.any_head? (isChar_emptied Char.isLower)

theorem readTag (matched : Matched first second part other) (offset : Nat) :
    ReadAlike first second (Token.readTag offset part) (Token.readTag offset other) := by
  rw [Token.readTag, Token.readTag]
  simp only [matched.isPrefixOf_eq, matched.alike.head?_eq_char '/', matched.beginsName_eq,
    (matched.drop 1).beginsName_eq]
  split
  · exact (matched.drop 3).readComment offset
  · split
    · exact (matched.drop 1).readEndTag offset
    · split
      · exact matched.readStartTag offset
      · exact .error _

/-- Matched parts have tokens of the same shapes, or the same fault. -/
theorem ofAtoms (matched : Matched first second part other) (offset : Nat) :
    ∃ outcome : Except MarkupError (List Shape),
      Token.ofAtoms offset part = outcome.map (List.map (Shape.token first)) ∧
        Token.ofAtoms offset other = outcome.map (List.map (Shape.token second)) := by
  fun_induction Token.ofAtoms offset part generalizing other with
  | case1 offset =>
      obtain rfl : other = [] := List.eq_nil_of_length_eq_zero matched.alike.length_eq.symm
      exact ⟨.ok [], rfl, by rw [Token.ofAtoms]; rfl⟩
  | case2 offset atom rest isText run =>
      rename_i induction
      obtain ⟨head, others, rfl, head_eq, tails⟩ := matched.exists_cons
      have head_text : isTextAtom head := head_eq isTextAtom isTextAtom_emptied ▸ isText
      -- The text is as long in one as in the other, and what is behind it is matched again.
      have runs := matched.takeWhile isTextAtom_emptied
      rw [List.takeWhile_cons_of_pos isText, List.takeWhile_cons_of_pos head_text] at runs
      have run_length : run.length = (others.takeWhile isTextAtom).length := by
        simpa using runs.alike.length_eq
      obtain ⟨stretch, part_eq, other_eq⟩ := runs.same
      obtain ⟨outcome, part_read, other_read⟩ := induction (tails.dropWhile isTextAtom_emptied)
      rw [run_length] at part_read other_read
      refine ⟨outcome.map (.text stretch :: ·), ?_, ?_⟩
      · rw [run_length, part_read, part_eq]
        cases outcome <;> rfl
      · rw [Token.ofAtoms, if_pos head_text]
        simp only [other_read, other_eq]
        cases outcome <;> rfl
  | case3 offset atom rest isTag induction =>
      obtain ⟨head, others, rfl, head_eq, tails⟩ := matched.exists_cons
      have head_tag : ¬isTextAtom head := head_eq isTextAtom isTextAtom_emptied ▸ isTag
      have read := tails.readTag offset
      rw [Token.ofAtoms, if_neg head_tag]
      generalize Token.readTag offset others = other_result at read
      cases read_eq : Token.readTag offset rest with
      | error error =>
          rw [read_eq] at read
          cases read
          exact ⟨.error error, rfl, rfl⟩
      | ok lexeme =>
          rw [read_eq] at read
          cases read with
          | ok shapes size =>
              obtain ⟨outcome, part_read, other_read⟩ :=
                induction ⟨shapes.map (Shape.token first), size⟩ (tails.drop size)
              refine ⟨outcome.map (shapes ++ ·), ?_, ?_⟩
              · simp only [bind, Except.bind, part_read]
                cases outcome <;> simp [Except.map, pure, Except.pure]
              · simp only [bind, Except.bind, other_read]
                cases outcome <;> simp [Except.map, pure, Except.pure]

end Matched

end Token

/-! ## Chunks -/

/-- The stretch with the expression of a hole taken out. -/
def Segment.emptied : Segment → Segment
  | .text content => .text content
  | .hole _ => .hole ""

/-- Chunks that differ at most in the expressions of their holes. -/
def Markup.Alike (first second : Markup) : Prop :=
  first.segments.map Segment.emptied = second.segments.map Segment.emptied

namespace Markup

theorem Alike.atoms {first second : Markup} (alike : first.Alike second) :
    Atom.Alike first.atoms second.atoms := by
  have emptied_atoms : ∀ segment : Segment,
      segment.atoms.map Atom.emptied = segment.emptied.atoms := by
    intro segment
    cases segment with
    | text content => simp [Segment.atoms, Segment.emptied, Atom.emptied, Function.comp_def]
    | hole expression => rfl
  have stretches := congrArg (List.flatMap Segment.atoms) alike
  rw [List.flatMap_map, List.flatMap_map] at stretches
  simpa [Atom.Alike, Markup.atoms, List.map_flatMap, emptied_atoms] using stretches

/-- A chunk with a hole where attributes begin, one in a quoted value, one in a comment and one in
a text. -/
def fourHoles (first second third fourth : String) : Markup where
  segments :=
    [.text "<a", .hole first, .text " b=\"", .hole second, .text "\" /><!--", .hole third,
      .text "-->", .hole fourth]

/-- Holes with names in them. -/
def namesInHoles : Markup := fourHoles "a" "b" "c" "d"

/-- Holes with what would end the token that each stands in. -/
def endsInHoles : Markup := fourHoles "/>" "\">" "--><!--[-->" "</a>"

example : endsInHoles.tokens.toOption = some
    [.opening "a" "$\x7b/>\x7d b=\"$\x7b\">\x7d\"" true, .comment "$\x7b--><!--[-->\x7d",
      .text "$\x7b</a>\x7d"] := by
  decide +kernel

end Markup

end IslandSlots
