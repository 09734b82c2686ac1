import IslandSlots.Proofs.Markup.Plain
import IslandSlots.Proofs.Outcome
import IslandSlots.Proofs.Text.Search
import Mathlib.Data.List.DropRight

/-!
# The grammar of chunks

A chunk has tokens exactly when its atoms are a row of items: texts, comments, end tags, and start
tags with the raw text that belongs to them. What an item takes is said by its atoms and by those
behind it, so that a chunk is a row of items in one way only, and its tokens are those of the items.
The characters of a name, the atoms that may follow one and the comments that mark a fragment are
written out here, apart from the tests that the scan makes.
-/

namespace IslandSlots

namespace Tag

/-- Letters and digits of ASCII, `-` and `:` may stand in the name of a tag. -/
def StandsInName (c : Char) : Prop :=
  'a' ≤ c ∧ c ≤ 'z' ∨ 'A' ≤ c ∧ c ≤ 'Z' ∨ '0' ≤ c ∧ c ≤ '9' ∨ c = '-' ∨ c = ':'

/-- Characters that are the whole name of a tag. -/
structure IsName (name : List Char) : Prop where
  /-- The first one is a lower-case letter. -/
  begins : ∃ c ∈ name.head?, 'a' ≤ c ∧ c ≤ 'z'
  /-- Each may stand in a name. -/
  chars : ∀ c ∈ name, StandsInName c

end Tag

/-- A character that is white space. What a hole fills in is not looked into. -/
inductive Atom.IsWhite : Atom → Prop where
  | char {c : Char} : Text.isBlank c → IsWhite (.char c)

namespace Token

/-! ## Items -/

/-- What the text of a start tag between its name and its end says: the attributes, without blanks
around them and without a final slash, and whether there is such a slash. -/
def shownAttributes (text : List Char) : String × Bool :=
  let trimmed := Text.trim text
  if trimmed.getLast? = some '/' then (String.ofList (Text.trim trimmed.dropLast), true)
  else (String.ofList trimmed, false)

/-- The token of a start tag. A final slash closes it, and so does a name that holds nothing. -/
def ofStartTag (name : List Char) (inside : List Atom) : Token :=
  let (attrs, slash) := shownAttributes (inside.flatMap Atom.chars)
  .opening (String.ofList name) attrs (slash || Tag.isVoid (String.ofList name))

/-- Whether what is behind a token is raw text. -/
def opensRawText : Token → Bool
  | .opening tag _ selfClosing => !selfClosing && (tag == "script" || tag == "style")
  | _ => false

/-- The tokens of a run that may have nothing in it. -/
def ofRun (run : List Atom) : List Token :=
  if run.isEmpty then [] else [.text (Atom.render run)]

/-- The token of a comment with the given body: a bracket alone marks an end of a fragment. -/
inductive IsComment : List Atom → Token → Prop where
  | fragmentStart : IsComment [.char '['] .fragmentStart
  | fragmentEnd : IsComment [.char ']'] .fragmentEnd
  | other {body : List Atom} : body ≠ [.char '['] → body ≠ [.char ']'] →
      IsComment body (.comment (Atom.render body))

/-- An atom that ends the name of a start tag. -/
inductive EndsName : Atom → Prop where
  | hole (expression : String) : EndsName (.hole expression)
  | white {atom : Atom} : atom.IsWhite → EndsName atom
  | slash : EndsName (.char '/')
  | bracket : EndsName (.char '>')

/-- A start tag: its name ends where it should, and it goes up to the first `>` that is not between
double quotes. -/
structure IsStartTag (name : List Char) (inside : List Atom) : Prop where
  /-- The name is one. -/
  name : Tag.IsName name
  /-- The atom behind the name may stand there, and so the name goes no further. -/
  ends : ∃ atom ∈ (inside ++ [Atom.char '>']).head?, EndsName atom
  /-- The first `>` that is not between double quotes is behind. -/
  inside : IsInside false inside

/-- Some atoms are one item with the given tokens, when the given atoms are behind them. -/
inductive Item : List Atom → List Token → List Atom → Prop where
  /-- A text is a run without `<` that goes as far as it can. -/
  | text {run behind : List Atom} : run ≠ [] → Atom.char '<' ∉ run →
      (behind ≠ [] → behind.head? = some (.char '<')) →
        Item run [.text (Atom.render run)] behind
  /-- A comment goes up to the first `-->` behind its opening. -/
  | comment {body behind : List Atom} {token : Token} :
      Text.GoesUpTo (word ['-', '-', '>']) body (word ['-', '-', '>'] ++ behind) →
        IsComment body token →
          Item (word ['<', '!', '-', '-'] ++ body ++ word ['-', '-', '>']) [token] behind
  /-- An end tag has blanks at most between its name and its `>`. -/
  | endTag {name : List Char} {blanks behind : List Atom} : Tag.IsName name →
      (∀ atom ∈ blanks, atom.IsWhite) →
        Item (word ('<' :: '/' :: name) ++ blanks ++ [.char '>']) [.closing (String.ofList name)]
          behind
  /-- A start tag of an element that has no raw text. -/
  | startTag {name : List Char} {inside behind : List Atom} : IsStartTag name inside →
      (ofStartTag name inside).opensRawText = false →
        Item (word ('<' :: name) ++ inside ++ [.char '>']) [ofStartTag name inside] behind
  /-- A start tag with the raw text up to the first place where its end tag may begin. -/
  | rawText {name : List Char} {inside body behind : List Atom} : IsStartTag name inside →
      (ofStartTag name inside).opensRawText → Text.GoesUpTo (word ('<' :: '/' :: name)) body behind →
        Item (word ('<' :: name) ++ inside ++ [.char '>'] ++ body)
          (ofStartTag name inside :: ofRun body) behind

/-- Atoms are a row of items, from left to right, with the given tokens. -/
inductive Itemized : List Atom → List Token → Prop where
  | nil : Itemized [] []
  | cons {taken behind : List Atom} {tokens more : List Token} : Item taken tokens behind →
      Itemized behind more → Itemized (taken ++ behind) (tokens ++ more)

end Token

/-! ## Classes of characters and atoms -/

namespace Tag

theorem isLower_iff {c : Char} : c.isLower ↔ 'a' ≤ c ∧ c ≤ 'z' := by
  delta Char.isLower
  simp [Char.le_def]

theorem isNameChar_iff {c : Char} : isNameChar c ↔ StandsInName c := by
  delta isNameChar Char.isAlphanum Char.isAlpha Char.isUpper Char.isDigit
  simp [StandsInName, isLower_iff, Char.le_def, or_assoc, or_left_comm]

theorem bounds_of_isNameChar {c : Char} (named : isNameChar c) : 45 ≤ c.toNat ∧ c.toNat ≤ 122 := by
  have number : c.val.toNat = c.toNat := rfl
  simp only [isNameChar_iff, StandsInName, Char.le_def, UInt32.le_iff_toNat_le, Char.reduceVal,
    UInt32.reduceToNat] at named
  rcases named with lower | upper | digit | rfl | rfl
  · omega
  · omega
  · omega
  · decide
  · decide

theorem IsName.all_isNameChar {name : List Char} (named : IsName name) :
    ∀ c ∈ name, isNameChar c :=
  fun c found => isNameChar_iff.mpr (named.chars c found)

theorem isRawText_eq (tag : String) : isRawText tag = (tag == "script" || tag == "style") := by
  rw [isRawText, rawText, List.contains_cons, List.contains_cons, List.contains_nil, Bool.or_false]

end Tag

namespace Token

theorem isBlank_iff {atom : Atom} : isBlank atom ↔ atom.IsWhite := by
  constructor
  · intro blank
    cases atom with
    | char c => exact .char blank
    | hole => cases blank
  · rintro ⟨blank⟩
    exact blank

theorem endsName_iff {atom : Atom} : endsName atom ↔ EndsName atom := by
  constructor
  · intro ends
    cases atom with
    | char c =>
        simp only [endsName, Bool.or_eq_true, beq_iff_eq] at ends
        rcases ends with (rfl | rfl) | blank
        · exact .slash
        · exact .bracket
        · exact .white (.char blank)
    | hole expression => exact .hole expression
  · rintro (_ | ⟨⟨blank⟩⟩ | _ | _)
    · rfl
    · simp [endsName, blank]
    · rfl
    · rfl

theorem any_endsName_iff {atoms : List Atom} :
    atoms.head?.any endsName ↔ ∃ atom ∈ atoms.head?, EndsName atom := by
  simp [Option.any_eq_true, endsName_iff]

/-- The token of a comment is told by how its body shows. -/
theorem isComment_iff {body : List Atom} {token : Token} :
    IsComment body token ↔ token = ofComment (Atom.render body) := by
  have starts : Atom.render body = "[" ↔ body = [.char '['] :=
    Atom.render_eq_singleton (by decide)
  have stops : Atom.render body = "]" ↔ body = [.char ']'] :=
    Atom.render_eq_singleton (by decide)
  simp only [ofComment, starts, stops]
  constructor
  · rintro (_ | _ | ⟨start, stop⟩)
    · rfl
    · rfl
    · rw [if_neg start, if_neg stop]
  · rintro rfl
    split_ifs with start stop
    · subst start
      exact .fragmentStart
    · subst stop
      exact .fragmentEnd
    · exact .other start stop

/-! ## Blanks in what is shown -/

section Trimming

variable {shown : Atom → List Char}

/-- Blanks in front of what is shown are those of the atoms. -/
theorem dropWhile_flatMap (blank : ∀ atom, isBlank atom → ∃ c, shown atom = [c] ∧ Text.isBlank c)
    (solid : ∀ atom, isBlank atom = false →
      ∃ c rest, shown atom = c :: rest ∧ Text.isBlank c = false) (atoms : List Atom) :
    (atoms.flatMap shown).dropWhile Text.isBlank = (atoms.dropWhile isBlank).flatMap shown := by
  induction atoms with
  | nil => rfl
  | cons atom atoms induction =>
      rw [List.flatMap_cons, List.dropWhile_cons]
      cases here : isBlank atom with
      | true =>
          obtain ⟨c, shown_eq, c_blank⟩ := blank atom here
          rw [shown_eq, List.singleton_append, List.dropWhile_cons_of_pos c_blank, induction]
          rfl
      | false =>
          obtain ⟨c, rest, shown_eq, c_solid⟩ := solid atom here
          rw [shown_eq, List.cons_append, List.dropWhile_cons_of_neg (by simp [c_solid]),
            if_neg Bool.false_ne_true, List.flatMap_cons, shown_eq, List.cons_append]

end Trimming

theorem trimStart_chars (atoms : List Atom) :
    Text.trimStart (atoms.flatMap Atom.chars) = (atoms.dropWhile isBlank).flatMap Atom.chars := by
  refine dropWhile_flatMap (fun atom blank => ?_) (fun atom solid => ?_) atoms
  · cases atom with
    | char c => exact ⟨c, rfl, blank⟩
    | hole => cases blank
  · cases atom with
    | char c => exact ⟨c, [], rfl, solid⟩
    | hole expression => exact ⟨'$', _, rfl, rfl⟩

theorem trimEnd_chars (atoms : List Atom) :
    Text.trimEnd (atoms.flatMap Atom.chars) = (trimEnd atoms).flatMap Atom.chars := by
  have backwards : (atoms.flatMap Atom.chars).reverse.dropWhile Text.isBlank =
      (atoms.reverse.dropWhile isBlank).flatMap (List.reverse ∘ Atom.chars) := by
    rw [List.reverse_flatMap]
    refine dropWhile_flatMap (fun atom blank => ?_) (fun atom solid => ?_) atoms.reverse
    · cases atom with
      | char c => exact ⟨c, rfl, blank⟩
      | hole => cases blank
    · cases atom with
      | char c => exact ⟨c, [], rfl, solid⟩
      | hole expression =>
          exact ⟨'\x7d', ('$' :: '\x7b' :: expression.toList).reverse, by simp [Atom.chars], rfl⟩
  rw [Text.trimEnd, trimEnd, backwards, List.flatMap_reverse]

theorem trim_chars (atoms : List Atom) :
    Text.trim (atoms.flatMap Atom.chars) = (trim atoms).flatMap Atom.chars := by
  rw [Text.trim, trimStart_chars, trimEnd_chars, trim]

/-- A run of atoms that begins another one without blanks in front has none either. -/
theorem dropWhile_of_prefix {front atoms : List Atom} (begins : front <+: atoms.dropWhile isBlank) :
    front.dropWhile isBlank = front := by
  cases front with
  | nil => rfl
  | cons atom front =>
      obtain ⟨back, split⟩ := begins
      have solid := List.head?_dropWhile_not isBlank atoms
      rw [← split] at solid
      exact List.dropWhile_cons_of_neg (by simpa using solid)

/-- The last character that is shown is a slash only if the last atom is one. -/
theorem getLast?_chars (atoms : List Atom) :
    (atoms.flatMap Atom.chars).getLast? = some '/' ↔ atoms.getLast? = some (.char '/') := by
  rcases List.eq_nil_or_concat atoms with rfl | ⟨front, last, rfl⟩
  · simp
  · cases last <;> simp [Atom.chars, List.getLast?_cons]

/-- The attributes of a start tag are those that its text shows. -/
theorem attributes_eq (inside : List Atom) :
    attributes inside = shownAttributes (inside.flatMap Atom.chars) := by
  rw [attributes, shownAttributes, trim_chars]
  simp only [getLast?_chars]
  split
  · rename_i slash
    obtain ⟨front, front_eq⟩ := List.getLast?_eq_some_iff.mp slash
    have begins : (trim inside).dropLast <+: inside.dropWhile isBlank :=
      (List.dropLast_prefix _).trans (List.rdropWhile_prefix isBlank _)
    have cut : ((trim inside).flatMap Atom.chars).dropLast =
        (trim inside).dropLast.flatMap Atom.chars := by
      rw [front_eq]
      simp [Atom.chars]
    rw [cut, trim_chars, trim.eq_1 (trim inside).dropLast, dropWhile_of_prefix begins]
    rfl
  · rfl

/-! ## Reading an item -/

/-- Atoms begin with the longest name there. -/
theorem exists_leadingName (atoms : List Atom) :
    ∃ name behind, atoms = word name ++ behind ∧ leadingName atoms = name ∧
      (∀ c ∈ name, Tag.isNameChar c) ∧ leadingName behind = [] := by
  fun_induction leadingName atoms with
  | case1 c rest named induction =>
      obtain ⟨name, behind, rfl, name_eq, chars, ends⟩ := induction
      exact ⟨c :: name, behind, rfl, by rw [name_eq], List.forall_mem_cons.mpr ⟨named, chars⟩, ends⟩
  | case2 c rest other =>
      exact ⟨[], _, rfl, rfl, List.forall_mem_nil _, by rw [leadingName, if_neg other]⟩
  | case3 atoms other =>
      exact ⟨[], atoms, rfl, rfl, List.forall_mem_nil _, by rw [leadingName.eq_2 _ other]⟩

theorem drop_word (name : List Char) (behind : List Atom) :
    (word name ++ behind).drop name.length = behind := by
  simp [word]

/-- Atoms begin with the blanks there. -/
theorem exists_blanks (atoms : List Atom) :
    ∃ front behind, atoms = front ++ behind ∧ blanks atoms = front.length ∧
      ∀ atom ∈ front, isBlank atom :=
  ⟨_, _, List.takeWhile_append_dropWhile.symm, rfl, fun _ found => List.mem_takeWhile_imp found⟩

theorem blanks_append {front behind : List Atom} {atom : Atom}
    (blank : ∀ atom ∈ front, isBlank atom) (solid : isBlank atom = false) :
    blanks (front ++ atom :: behind) = front.length := by
  rw [blanks, List.takeWhile_append_of_pos blank, List.takeWhile_cons_of_neg (by simp [solid]),
    List.append_nil]

theorem not_isNameChar_of_endsName {c : Char} (ends : endsName (.char c)) :
    Tag.isNameChar c = false := by
  rw [Bool.eq_false_iff]
  intro named
  simp only [endsName, Text.isBlank, Bool.or_eq_true, Bool.and_eq_true, beq_iff_eq,
    decide_eq_true_eq] at ends
  rcases ends with (rfl | rfl) | blank
  · exact absurd named (by decide)
  · exact absurd named (by decide)
  · have bounds := Tag.bounds_of_isNameChar named
    omega

/-- What may stand behind a name is no part of one. -/
theorem leadingName_of_endsName {atoms : List Atom} (ends : atoms.head?.any endsName) :
    leadingName atoms = [] := by
  rcases atoms with _ | ⟨c | expression, rest⟩
  · rfl
  · rw [leadingName, if_neg (by simp [not_isNameChar_of_endsName ends])]
  · rfl

theorem isName_leadingName {atoms : List Atom} (begins : beginsName atoms) :
    Tag.IsName (leadingName atoms) := by
  obtain ⟨name, behind, rfl, name_eq, chars, ends⟩ := exists_leadingName atoms
  rw [name_eq]
  refine ⟨?_, fun c found => Tag.isNameChar_iff.mp (chars c found)⟩
  cases name with
  | nil =>
      rcases behind with _ | ⟨c | expression, rest⟩
      · cases begins
      · have named : Tag.isNameChar c := Tag.isNameChar_iff.mpr (.inl (Tag.isLower_iff.mp begins))
        rw [leadingName, if_pos named] at ends
        cases ends
      · cases begins
  | cons c name => exact ⟨c, rfl, Tag.isLower_iff.mp begins⟩

theorem endsName_of_isBlank {atom : Atom} (blank : isBlank atom) : endsName atom :=
  endsName_iff.mpr (.white (isBlank_iff.mp blank))

theorem beginsName_of_isName {name : List Char} (named : Tag.IsName name) (rest : List Atom) :
    beginsName (word name ++ rest) := by
  obtain ⟨c, first, lower⟩ := named.begins
  obtain ⟨name, rfl⟩ := List.head?_eq_some_iff.mp first
  exact Tag.isLower_iff.mpr lower

theorem readComment_eq_ok {offset : Nat} {atoms : List Atom} {lexeme : Lexeme} :
    readComment offset atoms = .ok lexeme ↔ ∃ body behind,
      atoms = body ++ (word ['-', '-', '>'] ++ behind) ∧
        Text.GoesUpTo (word ['-', '-', '>']) body (word ['-', '-', '>'] ++ behind) ∧
          lexeme = ⟨[ofComment (Atom.render body)], body.length + 6⟩ := by
  rw [readComment]
  constructor
  · intro found
    split at found
    · rename_i body behind split_eq
      obtain ⟨atoms_eq, upto⟩ := Text.splitFirst?_eq_some_iff.mp split_eq
      exact ⟨body, behind, atoms_eq, upto, (Except.ok.inj found).symm⟩
    · cases found
  · rintro ⟨body, behind, atoms_eq, upto, rfl⟩
    rw [Text.splitFirst?_eq_some_iff.mpr ⟨atoms_eq, upto⟩]

theorem readEndTag_eq_ok {offset : Nat} {atoms : List Atom} {lexeme : Lexeme}
    (begins : beginsName atoms) :
    readEndTag offset atoms = .ok lexeme ↔ ∃ name front behind,
      atoms = word name ++ (front ++ .char '>' :: behind) ∧ Tag.IsName name ∧
        (∀ atom ∈ front, isBlank atom) ∧
          lexeme = ⟨[.closing (String.ofList name)], name.length + front.length + 2⟩ := by
  simp only [readEndTag, ← List.drop_drop]
  constructor
  · intro found
    have named := isName_leadingName begins
    obtain ⟨name, behind, rfl, name_eq, -, -⟩ := exists_leadingName atoms
    obtain ⟨front, behind, rfl, front_eq, blank⟩ := exists_blanks behind
    simp only [name_eq, drop_word, front_eq, List.drop_left] at named found
    split at found
    · rename_i closed
      obtain ⟨after, rfl⟩ := List.head?_eq_some_iff.mp closed
      exact ⟨name, front, after, rfl, named, blank, (Except.ok.inj found).symm⟩
    · cases found
  · rintro ⟨name, front, behind, rfl, named, blank, rfl⟩
    have ends : leadingName (front ++ .char '>' :: behind) = [] := by
      apply leadingName_of_endsName
      cases front with
      | nil => rfl
      | cons atom front => exact endsName_of_isBlank (blank atom List.mem_cons_self)
    simp only [leadingName_word named.all_isNameChar ends, drop_word,
      blanks_append blank (by decide : isBlank (.char '>') = false), List.drop_left,
      List.head?_cons, if_true]

theorem readRawText_eq_ok {tag : String} {offset : Nat} {atoms body : List Atom} :
    readRawText tag offset atoms = .ok body ↔ ∃ behind, atoms = body ++ behind ∧
      Text.GoesUpTo (word ('<' :: '/' :: tag.toList)) body behind := by
  rw [readRawText]
  constructor
  · intro found
    split at found
    · rename_i before behind split_eq
      obtain rfl := Except.ok.inj found
      obtain ⟨atoms_eq, upto⟩ := Text.splitFirst?_eq_some_iff.mp split_eq
      exact ⟨_, atoms_eq, upto⟩
    · cases found
  · rintro ⟨behind, rfl, upto⟩
    obtain ⟨after, rfl⟩ := upto.stands
    rw [Text.splitFirst?_eq_some_iff.mpr ⟨rfl, upto⟩]

/-- A start tag is read with its raw text, which takes nothing where there is none. -/
theorem readStartTag_eq (offset : Nat) {name : List Char} {behind : List Atom}
    (name_eq : leadingName (word name ++ behind) = name) :
    readStartTag offset (word name ++ behind) =
      if behind.head?.any endsName then
        match tagInside false behind with
        | none => .error ⟨.unterminatedTag (String.ofList name), offset⟩
        | some inside =>
          let size := name.length + inside.length + 1
          let start := ofStartTag name inside
          if start.opensRawText then
            readRawText (String.ofList name) (offset + 1 + size)
              ((word name ++ behind).drop size) >>= fun body =>
                .ok ⟨start :: ofRun body, size + body.length⟩
          else .ok ⟨[start], size⟩
      else .error ⟨.invalidName (String.ofList name), offset + 1 + name.length⟩ := by
  have with_body (start : Token) (size : Nat) (body : List Atom) :
      (if body.isEmpty then pure ⟨[start], size⟩
        else pure ⟨[start, .text (Atom.render body)], size + body.length⟩) =
        (.ok ⟨start :: ofRun body, size + body.length⟩ : Except MarkupError Lexeme) := by
    cases body <;> rfl
  rw [readStartTag]
  simp only [name_eq, drop_word, attributes_eq, Tag.isRawText_eq, with_body]
  cases behind.head?.any endsName with
  | false => rfl
  | true =>
      cases tagInside false behind <;> rfl

theorem readStartTag_eq_ok {offset : Nat} {atoms : List Atom} {lexeme : Lexeme}
    (begins : beginsName atoms) :
    readStartTag offset atoms = .ok lexeme ↔ ∃ name inside body behind,
      atoms = word name ++ (inside ++ .char '>' :: (body ++ behind)) ∧ IsStartTag name inside ∧
        (if (ofStartTag name inside).opensRawText then
          Text.GoesUpTo (word ('<' :: '/' :: name)) body behind else body = []) ∧
        lexeme = ⟨ofStartTag name inside :: ofRun body,
          name.length + inside.length + 1 + body.length⟩ := by
  have head_eq (inside behind : List Atom) :
      (inside ++ .char '>' :: behind).head? = (inside ++ [Atom.char '>']).head? := by
    cases inside <;> rfl
  have dropped (name : List Char) (inside behind : List Atom) :
      (word name ++ (inside ++ .char '>' :: behind)).drop (name.length + inside.length + 1) =
        behind := by
    rw [Nat.add_assoc, ← List.drop_drop, drop_word, ← List.drop_drop, List.drop_left]
    rfl
  constructor
  · intro found
    have named := isName_leadingName begins
    obtain ⟨name, behind, rfl, name_eq, -, -⟩ := exists_leadingName atoms
    rw [name_eq] at named
    rw [readStartTag_eq offset name_eq] at found
    split at found
    · rename_i ends
      split at found
      · cases found
      · rename_i inside inside_eq
        obtain ⟨after, rfl, inner⟩ := tagInside_eq_some_iff.mp inside_eq
        rw [head_eq] at ends
        simp only [dropped] at found
        split at found
        · rename_i raw
          obtain ⟨body, body_eq, made⟩ := bind_eq_ok.mp found
          obtain ⟨behind, rfl, upto⟩ := readRawText_eq_ok.mp body_eq
          rw [String.toList_ofList] at upto
          exact ⟨name, inside, body, behind, rfl, ⟨named, any_endsName_iff.mp ends, inner⟩,
            by rwa [if_pos raw],
            (Except.ok.inj made).symm⟩
        · rename_i other
          exact ⟨name, inside, [], after, rfl, ⟨named, any_endsName_iff.mp ends, inner⟩,
            by rw [if_neg other], (Except.ok.inj found).symm⟩
    · cases found
  · rintro ⟨name, inside, body, behind, rfl, start, raw, rfl⟩
    have ends : (inside ++ .char '>' :: (body ++ behind)).head?.any endsName := by
      rw [head_eq]
      exact any_endsName_iff.mpr start.ends
    have name_eq := leadingName_word start.name.all_isNameChar (leadingName_of_endsName ends)
    have inside_eq := tagInside_eq_some_iff.mpr ⟨body ++ behind, rfl, start.inside⟩
    rw [readStartTag_eq offset name_eq, if_pos ends, inside_eq]
    simp only [dropped]
    split at raw
    · rename_i holds
      rw [if_pos holds, bind_eq_ok]
      refine ⟨body, readRawText_eq_ok.mpr ⟨behind, rfl, ?_⟩, rfl⟩
      rwa [String.toList_ofList]
    · rename_i other
      subst raw
      rw [if_neg other]
      rfl

/-- What is read at a `<` is an item. -/
theorem item_of_readTag {offset : Nat} {rest : List Atom} {lexeme : Lexeme}
    (found : readTag offset rest = .ok lexeme) : ∃ taken behind, rest = taken ++ behind ∧
      lexeme.size = taken.length ∧ Item (.char '<' :: taken) lexeme.tokens behind := by
  rw [readTag] at found
  split at found
  · rename_i opens
    obtain ⟨inner, rfl⟩ := List.isPrefixOf_iff_prefix.mp opens
    obtain ⟨body, behind, rfl, upto, rfl⟩ := readComment_eq_ok.mp found
    exact ⟨word ['!', '-', '-'] ++ body ++ word ['-', '-', '>'], behind, by simp,
      by simp [word], .comment upto (isComment_iff.mpr rfl)⟩
  · split at found
    · rename_i opens
      simp only [Bool.and_eq_true, decide_eq_true_eq] at opens
      obtain ⟨inner, rfl⟩ := List.head?_eq_some_iff.mp opens.1
      obtain ⟨name, front, behind, rfl, named, blank, rfl⟩ := (readEndTag_eq_ok opens.2).mp found
      exact ⟨word ('/' :: name) ++ front ++ [Atom.char '>'], behind, by simp [word],
        by simp [word]; omega, .endTag named fun atom found => isBlank_iff.mp (blank atom found)⟩
    · split at found
      · rename_i begins
        obtain ⟨name, inside, body, behind, rfl, start, raw, rfl⟩ :=
          (readStartTag_eq_ok begins).mp found
        refine ⟨word name ++ inside ++ [.char '>'] ++ body, behind, by simp, by simp [word]; omega,
          ?_⟩
        split at raw
        · rename_i holds
          exact .rawText start holds raw
        · rename_i other
          subst raw
          rw [List.append_nil]
          exact .startTag start (by simpa using other)
      · cases found

/-- An item that begins with a `<` is what is read there. -/
theorem readTag_of_item (offset : Nat) {taken behind : List Atom} {tokens : List Token}
    (item : Item (.char '<' :: taken) tokens behind) :
    readTag offset (taken ++ behind) = .ok ⟨tokens, taken.length⟩ := by
  generalize all_eq : Atom.char '<' :: taken = all at item
  cases item with
  | text filled plain => exact absurd (all_eq ▸ List.mem_cons_self) plain
  | @comment body _ _ upto made =>
      obtain rfl := isComment_iff.mp made
      obtain rfl : taken = word ['!', '-', '-'] ++ body ++ word ['-', '-', '>'] :=
        (List.cons.inj all_eq).2
      rw [List.append_assoc, List.append_assoc, readTag, if_pos (by rfl)]
      exact readComment_eq_ok.mpr ⟨body, behind, by simp [word], upto, by simp [word]⟩
  | @endTag name front _ named blank =>
      obtain rfl : taken = .char '/' :: (word name ++ front ++ [Atom.char '>']) :=
        (List.cons.inj all_eq).2
      have split : word name ++ front ++ [Atom.char '>'] ++ behind =
          word name ++ (front ++ .char '>' :: behind) := by simp
      have begins := beginsName_of_isName named (front ++ .char '>' :: behind)
      rw [List.cons_append, split, readTag, if_neg (by simp [word]), if_pos (by simp [begins])]
      exact (readEndTag_eq_ok begins).mpr
        ⟨name, front, behind, rfl, named, fun atom found => isBlank_iff.mpr (blank atom found),
          by simp [word]; omega⟩
  | @startTag name inside _ start other =>
      obtain rfl : taken = word name ++ inside ++ [Atom.char '>'] := (List.cons.inj all_eq).2
      have split : word name ++ inside ++ [Atom.char '>'] ++ behind =
          word name ++ (inside ++ .char '>' :: ([] ++ behind)) := by simp
      have begins := beginsName_of_isName start.name (inside ++ .char '>' :: ([] ++ behind))
      rw [split, readTag_of_beginsName offset begins]
      exact (readStartTag_eq_ok begins).mpr
        ⟨name, inside, [], behind, rfl, start, by simp [other], by simp [word, ofRun, Nat.add_assoc]⟩
  | @rawText name inside body _ start raw upto =>
      obtain rfl : taken = word name ++ inside ++ [Atom.char '>'] ++ body :=
        (List.cons.inj all_eq).2
      have split : word name ++ inside ++ [Atom.char '>'] ++ body ++ behind =
          word name ++ (inside ++ .char '>' :: (body ++ behind)) := by simp
      have begins := beginsName_of_isName start.name (inside ++ .char '>' :: (body ++ behind))
      rw [split, readTag_of_beginsName offset begins]
      exact (readStartTag_eq_ok begins).mpr
        ⟨name, inside, body, behind, rfl, start, by rwa [if_pos raw], by simp [word]; omega⟩

/-! ## Reading a row of items -/

theorem item_text {atom : Atom} (isText : isTextAtom atom) (rest : List Atom) :
    Item (atom :: rest.takeWhile isTextAtom)
      [.text (Atom.render (atom :: rest.takeWhile isTextAtom))] (rest.dropWhile isTextAtom) := by
  refine .text (List.cons_ne_nil _ _) (fun bracket => ?_) fun filled => ?_
  · have bracket_text : isTextAtom (.char '<') := by
      rcases List.mem_cons.mp bracket with here | later
      · rwa [here]
      · exact List.mem_takeWhile_imp later
    cases bracket_text
  · have stops := List.head?_dropWhile_not isTextAtom rest
    obtain ⟨first, behind, behind_eq⟩ := List.exists_cons_of_ne_nil filled
    rw [behind_eq] at stops ⊢
    simpa [isTextAtom] using stops

/-- What is read is a row of items. -/
theorem itemized_of_ofAtoms {offset : Nat} {atoms : List Atom} {tokens : List Token}
    (found : ofAtoms offset atoms = .ok tokens) : Itemized atoms tokens := by
  fun_induction ofAtoms offset atoms generalizing tokens with
  | case1 =>
      cases found
      exact .nil
  | case2 offset atom rest isText run =>
      rename_i induction
      obtain ⟨more, more_eq, found⟩ := bind_eq_ok.mp found
      cases found
      have split : atom :: rest = atom :: run ++ rest.dropWhile isTextAtom := by
        rw [List.cons_append, List.takeWhile_append_dropWhile]
      rw [split]
      exact .cons (item_text isText rest) (induction more_eq)
  | case3 offset atom rest isTag induction =>
      obtain ⟨lexeme, lexeme_eq, found⟩ := bind_eq_ok.mp found
      obtain ⟨more, more_eq, found⟩ := bind_eq_ok.mp found
      cases found
      obtain ⟨taken, behind, rfl, size_eq, item⟩ := item_of_readTag lexeme_eq
      have rest_eq := induction lexeme more_eq
      rw [size_eq, List.drop_left] at rest_eq
      obtain rfl : atom = .char '<' := by simpa [isTextAtom] using isTag
      exact .cons item rest_eq

theorem ofAtoms_text {run behind : List Atom} {more : List Token} (filled : run ≠ [])
    (plain : Atom.char '<' ∉ run) (stops : behind ≠ [] → behind.head? = some (.char '<'))
    (read : ∀ offset, ofAtoms offset behind = .ok more) (offset : Nat) :
    ofAtoms offset (run ++ behind) = .ok (.text (Atom.render run) :: more) := by
  obtain ⟨atom, run, rfl⟩ := List.exists_cons_of_ne_nil filled
  have isText : ∀ other ∈ atom :: run, isTextAtom other := by
    intro other member
    have not_bracket : other ≠ .char '<' := fun same => plain (same ▸ member)
    simpa [isTextAtom] using not_bracket
  obtain ⟨atom_text, run_text⟩ := List.forall_mem_cons.mp isText
  have ends : behind.takeWhile isTextAtom = [] ∧ behind.dropWhile isTextAtom = behind := by
    cases behind with
    | nil => exact ⟨rfl, rfl⟩
    | cons first behind =>
        obtain rfl := Option.some.inj (stops (List.cons_ne_nil _ _))
        exact ⟨rfl, rfl⟩
  rw [List.cons_append, ofAtoms, if_pos atom_text]
  simp only [List.takeWhile_append_of_pos run_text, List.dropWhile_append_of_pos run_text, ends,
    List.append_nil, read]
  rfl

theorem ofAtoms_tag {taken behind : List Atom} {tokens more : List Token}
    (item : Item (.char '<' :: taken) tokens behind)
    (read : ∀ offset, ofAtoms offset behind = .ok more) (offset : Nat) :
    ofAtoms offset (.char '<' :: taken ++ behind) = .ok (tokens ++ more) := by
  rw [List.cons_append, ofAtoms, if_neg (by decide), readTag_of_item offset item]
  simp only [bind, Except.bind, List.drop_left, read]
  rfl

/-- A row of items is read as its tokens. -/
theorem ofAtoms_of_itemized {atoms : List Atom} {tokens : List Token}
    (itemized : Itemized atoms tokens) (offset : Nat) : ofAtoms offset atoms = .ok tokens := by
  induction itemized generalizing offset with
  | nil => rw [ofAtoms]
  | cons item _ read =>
      cases item with
      | text filled plain stops => exact ofAtoms_text filled plain stops read offset
      | comment upto made => exact ofAtoms_tag (.comment upto made) read offset
      | endTag named blank => exact ofAtoms_tag (.endTag named blank) read offset
      | startTag start other => exact ofAtoms_tag (.startTag start other) read offset
      | rawText start raw upto => exact ofAtoms_tag (.rawText start raw upto) read offset

end Token

/-- A chunk has the given tokens exactly when its atoms are a row of items with these tokens, and
they are no other row. -/
theorem Markup.tokens_eq_ok_iff (markup : Markup) (tokens : List Token) :
    markup.tokens = .ok tokens ↔ Token.Itemized markup.atoms tokens ∧
      ∀ others, Token.Itemized markup.atoms others → others = tokens := by
  constructor
  · intro found
    refine ⟨Token.itemized_of_ofAtoms found, fun others itemized => ?_⟩
    have other := Token.ofAtoms_of_itemized itemized 0
    exact Except.ok.inj (other.symm.trans found)
  · rintro ⟨itemized, -⟩
    exact Token.ofAtoms_of_itemized itemized 0

/-- A fragment that holds an element with a hole in its attributes, and another comment behind. -/
example :
    (Markup.tokens ⟨[.text "<!--[--><p a=\"", .hole "b > c", .text "\">d<br></p ><!--]--><!--e-->"]⟩
      ).toOption = some [.fragmentStart, .opening "p" "a=\"$\x7bb > c\x7d\"" false, .text "d",
        .opening "br" "" true, .closing "p", .fragmentEnd, .comment "e"] := by
  decide +kernel

end IslandSlots
