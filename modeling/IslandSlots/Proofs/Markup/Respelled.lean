import IslandSlots.Proofs.Markup.Grammar
import IslandSlots.Proofs.Markup.Holes
import IslandSlots.Proofs.Script.Template
import Mathlib.Data.List.Forall2

/-!
# Text respelled

The text of a template literal is not the text that the literal was written for: backslashes are in
front of some characters, and every line ends with a line feed. None of these characters is part
of a tag's name or of what begins or ends a tag or a comment, so that a chunk has tokens exactly
when the respelled one has, and these are the same but for the texts, attributes and comments.
-/

namespace IslandSlots.Token

open Script.Template (isMarked)

/-- Whether a character is neither written with a backslash nor blank. -/
def isSolid (c : Char) : Bool :=
  !isMarked c && !Text.isBlank c

/-- A run of characters and the same run as it is in the text of a template literal. -/
inductive Respelled : List Atom → List Atom → Prop where
  | nil : Respelled [] []
  /-- Most characters stay as they are. -/
  | kept {c : Char} {run other : List Atom} : isMarked c = false → c ≠ '\r' →
      Respelled run other → Respelled (.char c :: run) (.char c :: other)
  /-- A backslash goes in front of a backtick, a dollar sign or a backslash. -/
  | marked {c : Char} {run other : List Atom} : isMarked c → Respelled run other →
      Respelled (.char c :: run) (.char '\\' :: .char c :: other)
  /-- A carriage return with a line feed behind it is gone. -/
  | lineEnd {run other : List Atom} : Respelled run other →
      Respelled (.char '\r' :: .char '\n' :: run) (.char '\n' :: other)
  /-- Any other carriage return is a line feed. -/
  | carriageReturn {run other : List Atom} : Respelled run other →
      Respelled (.char '\r' :: run) (.char '\n' :: other)

/-- The tokens of related chunks. -/
inductive Shown (rel : List Atom → List Atom → Prop) : Token → Token → Prop where
  /-- Start tags have related attributes. -/
  | opening (tag : String) {attrs others : List Atom} (selfClosing : Bool) : rel attrs others →
      Shown rel (.opening tag (Atom.render attrs) selfClosing)
        (.opening tag (Atom.render others) selfClosing)
  | closing (tag : String) : Shown rel (.closing tag) (.closing tag)
  /-- Texts are related. -/
  | text {run other : List Atom} : rel run other →
      Shown rel (.text (Atom.render run)) (.text (Atom.render other))
  | fragmentStart : Shown rel .fragmentStart .fragmentStart
  | fragmentEnd : Shown rel .fragmentEnd .fragmentEnd
  /-- Comments that mark no fragment leave nothing behind. -/
  | comment (body other : String) : Shown rel (.comment body) (.comment other)

/-! ## Relations that no tag shows -/

/-- A relation between runs of atoms that changes no place where a tag or a comment begins or ends.
It can be read in both directions. -/
structure Steady (rel : List Atom → List Atom → Prop) : Prop where
  /-- Runs are put one behind the other. -/
  append {first second more others : List Atom} : rel first second → rel more others →
    rel (first ++ more) (second ++ others)
  /-- Nothing is related to nothing else. -/
  nil_left {atoms : List Atom} : rel [] atoms ↔ atoms = []
  nil_right {atoms : List Atom} : rel atoms [] ↔ atoms = []
  /-- A solid character is related to itself. -/
  solid {c : Char} : isSolid c → rel [.char c] [.char c]
  /-- Related runs can be cut at each solid character. -/
  cut_left {c : Char} {front back atoms : List Atom} : isSolid c →
    rel (front ++ .char c :: back) atoms →
      ∃ before after, atoms = before ++ .char c :: after ∧ rel front before ∧ rel back after
  cut_right {c : Char} {front back atoms : List Atom} : isSolid c →
    rel atoms (front ++ .char c :: back) →
      ∃ before after, atoms = before ++ .char c :: after ∧ rel before front ∧ rel after back
  /-- Blanks are related to blanks. -/
  blank {first second : List Atom} : rel first second →
    ((∀ atom ∈ first, isBlank atom) ↔ ∀ atom ∈ second, isBlank atom)
  /-- Both runs may stand behind a name, or neither. -/
  ends {first second : List Atom} : rel first second →
    first.head?.any endsName = second.head?.any endsName
  /-- Both runs may be inside a start tag, or neither. -/
  inside {first second : List Atom} (quotes : Bool) : rel first second →
    (IsInside quotes first ↔ IsInside quotes second)
  /-- Blanks at the ends can be left out. -/
  trimStart {first second : List Atom} : rel first second →
    rel (first.dropWhile isBlank) (second.dropWhile isBlank)
  trimEnd {first second : List Atom} : rel first second → rel (trimEnd first) (trimEnd second)

namespace Steady

variable {rel : List Atom → List Atom → Prop}

theorem swap (steady : Steady rel) : Steady fun first second => rel second first where
  append := steady.append
  nil_left := steady.nil_right
  nil_right := steady.nil_left
  solid := steady.solid
  cut_left := steady.cut_right
  cut_right := steady.cut_left
  blank related := (steady.blank related).symm
  ends related := (steady.ends related).symm
  inside quotes related := (steady.inside quotes related).symm
  trimStart := steady.trimStart
  trimEnd := steady.trimEnd

variable {c : Char} {name mark : List Char} {atoms others first second behind after : List Atom}

theorem cons (steady : Steady rel) (solid : isSolid c) (related : rel first second) :
    rel (.char c :: first) (.char c :: second) :=
  steady.append (steady.solid solid) related

theorem word (steady : Steady rel) (solid : ∀ c ∈ name, isSolid c) (related : rel first second) :
    rel (word name ++ first) (word name ++ second) := by
  induction name with
  | nil => exact related
  | cons c name induction =>
      rw [List.forall_mem_cons] at solid
      exact steady.cons solid.1 (induction solid.2)

/-- A solid character is at the front of both runs. -/
theorem uncons (steady : Steady rel) (solid : isSolid c) (related : rel (.char c :: first) atoms) :
    ∃ rest, atoms = .char c :: rest ∧ rel first rest := by
  rw [← List.nil_append (.char c :: first)] at related
  obtain ⟨before, rest, rfl, empty, rests⟩ := steady.cut_left solid related
  obtain rfl := steady.nil_left.mp empty
  exact ⟨rest, rfl, rests⟩

/-- A solid word is at the front of both runs. -/
theorem unword (steady : Steady rel) (solid : ∀ c ∈ name, isSolid c)
    (related : rel (Token.word name ++ first) atoms) :
    ∃ rest, atoms = Token.word name ++ rest ∧ rel first rest := by
  induction name generalizing atoms with
  | nil => exact ⟨atoms, rfl, related⟩
  | cons c name induction =>
      rw [List.forall_mem_cons] at solid
      obtain ⟨behind, rfl, tails⟩ := steady.uncons solid.1 related
      obtain ⟨rest, rfl, rests⟩ := induction solid.2 tails
      exact ⟨rest, rfl, rests⟩

/-- A solid word is at the end of both runs. -/
theorem unword_right (steady : Steady rel) (name : List Char) (solid : ∀ c ∈ name, isSolid c)
    (related : rel (first ++ Token.word name) atoms) :
    ∃ front, atoms = front ++ Token.word name ∧ rel first front := by
  cases name with
  | nil => exact ⟨atoms, by simp [Token.word], by simpa [Token.word] using related⟩
  | cons c name =>
      rw [List.forall_mem_cons] at solid
      obtain ⟨front, behind, rfl, fronts, tails⟩ := steady.cut_left solid.1 related
      rw [← List.append_nil (name.map Atom.char)] at tails
      obtain ⟨rest, rfl, empty⟩ := steady.unword solid.2 tails
      obtain rfl := steady.nil_left.mp empty
      exact ⟨front, by rw [List.append_nil]; rfl, fronts⟩

theorem mem (steady : Steady rel) (solid : isSolid c) (related : rel first second)
    (found : Atom.char c ∈ first) : Atom.char c ∈ second := by
  obtain ⟨front, back, rfl⟩ := List.append_of_mem found
  obtain ⟨before, after, rfl, -⟩ := steady.cut_left solid related
  simp

theorem head?_eq (steady : Steady rel) (solid : isSolid c) (related : rel first second)
    (begins : first.head? = some (.char c)) : second.head? = some (.char c) := by
  obtain ⟨rest, rfl⟩ := List.head?_eq_some_iff.mp begins
  obtain ⟨others, rfl, -⟩ := steady.uncons solid related
  rfl

theorem getLast?_eq (steady : Steady rel) (solid : isSolid c) (related : rel first second)
    (ends : first.getLast? = some (.char c)) :
    second.getLast? = some (.char c) ∧ rel first.dropLast second.dropLast := by
  obtain ⟨front, rfl⟩ := List.getLast?_eq_some_iff.mp ends
  obtain ⟨others, rfl, fronts⟩ := steady.unword_right [c] (by simpa using solid) related
  simpa [Token.word] using fronts

theorem eq_char (steady : Steady rel) (solid : isSolid c) (related : rel first second)
    (same : first = [.char c]) : second = [.char c] := by
  subst same
  obtain ⟨rest, rfl, empty⟩ := steady.uncons solid related
  rw [steady.nil_left.mp empty]

/-- A run that goes up to a solid mark is related to one that does. -/
theorem goesUpTo (steady : Steady rel) (filled : mark ≠ []) (solid : ∀ c ∈ mark, isSolid c)
    (run : rel first second) (rest : rel behind after)
    (upto : Text.GoesUpTo (Token.word mark) first behind) :
    Text.GoesUpTo (Token.word mark) second after where
  stands := by
    obtain ⟨left, rfl⟩ := upto.stands
    obtain ⟨others, rfl, -⟩ := steady.unword solid rest
    exact List.prefix_append _ _
  first := by
    intro front back split here
    by_contra sooner
    -- The mark would begin inside the run, and so inside the other one at the same character.
    obtain ⟨inner, inner_eq, back_eq⟩ : ∃ inner, second = front ++ inner ∧ back = inner ++ after := by
      have begins : front <+: second := List.prefix_of_prefix_length_le
        ⟨back, split.symm⟩ (List.prefix_append second after) (by omega)
      obtain ⟨inner, rfl⟩ := begins
      rw [List.append_assoc] at split
      exact ⟨inner, rfl, (List.append_cancel_left split).symm⟩
    subst inner_eq back_eq
    obtain ⟨c, mark, rfl⟩ := List.exists_cons_of_ne_nil filled
    have c_solid := solid c List.mem_cons_self
    cases inner with
    | nil => simp at sooner
    | cons atom inner =>
        obtain ⟨left, marked⟩ := here
        obtain ⟨rfl, -⟩ := List.cons.inj marked
        obtain ⟨before, between, rfl, fronts, inners⟩ := steady.cut_right c_solid run
        have backs := steady.append (steady.cons c_solid inners) rest
        rw [← marked] at backs
        obtain ⟨others, marked_eq, -⟩ := steady.swap.unword solid backs
        have found := upto.first before (.char c :: between ++ behind)
          (List.append_assoc before _ behind) ⟨others, marked_eq.symm⟩
        simp only [List.length_append, List.length_cons] at found
        omega

/-- The token of a comment marks a fragment in both chunks or in neither. -/
theorem ofComment (steady : Steady rel) (related : rel first second) :
    Shown rel (Token.ofComment (Atom.render first)) (Token.ofComment (Atom.render second)) := by
  have same {c : Char} (solid : isSolid c) (other : c ≠ '$') :
      Atom.render first = String.ofList [c] ↔ Atom.render second = String.ofList [c] := by
    rw [Atom.render_eq_singleton other, Atom.render_eq_singleton other]
    exact ⟨steady.eq_char solid related, steady.swap.eq_char solid related⟩
  have starts : Atom.render first = "[" ↔ Atom.render second = "[" :=
    same (by decide) (by decide)
  have stops : Atom.render first = "]" ↔ Atom.render second = "]" :=
    same (by decide) (by decide)
  simp only [Token.ofComment, starts, stops]
  split
  · exact .fragmentStart
  · split
    · exact .fragmentEnd
    · exact .comment _ _

/-- The attributes are related, and a final slash closes both tags or neither. -/
theorem attributes (steady : Steady rel) (related : rel first second) :
    ∃ attrs others slash, rel attrs others ∧
      Token.attributes first = (Atom.render attrs, slash) ∧
        Token.attributes second = (Atom.render others, slash) := by
  have trimmed : rel (trim first) (trim second) := steady.trimEnd (steady.trimStart related)
  have solid : isSolid '/' := by decide
  by_cases slash : (trim first).getLast? = some (.char '/')
  · obtain ⟨other, fronts⟩ := steady.getLast?_eq solid trimmed slash
    exact ⟨_, _, true, steady.trimEnd fronts, by simp [Token.attributes, slash],
      by simp [Token.attributes, other]⟩
  · have other : (trim second).getLast? ≠ some (.char '/') := fun found =>
      slash (steady.swap.getLast?_eq solid trimmed found).1
    exact ⟨_, _, false, trimmed, by simp [Token.attributes, slash],
      by simp [Token.attributes, other]⟩

theorem ofStartTag (steady : Steady rel) (name : List Char) (related : rel first second) :
    Shown rel (Token.ofStartTag name first) (Token.ofStartTag name second) := by
  obtain ⟨attrs, others, slash, attributes, first_eq, second_eq⟩ := steady.attributes related
  rw [attributes_eq] at first_eq second_eq
  simp only [Token.ofStartTag, first_eq, second_eq]
  exact .opening _ _ attributes

end Steady

theorem Shown.opensRawText_eq {rel : List Atom → List Atom → Prop} {token other : Token}
    (shown : Shown rel token other) : token.opensRawText = other.opensRawText := by
  cases shown <;> rfl

/-- No character that begins a start tag, or is in its name, has a backslash in front. -/
theorem isSolid_of_isNameChar {c : Char} (named : Tag.isNameChar c) : isSolid c := by
  have unmarked : isMarked c = false := by
    rw [Bool.eq_false_iff]
    intro marked
    simp only [isMarked, Bool.or_eq_true, beq_iff_eq] at marked
    rcases marked with (rfl | rfl) | rfl <;> exact absurd named (by decide)
  have bounds := Tag.bounds_of_isNameChar named
  simp only [isSolid, unmarked, Text.isBlank]
  simp
  omega

theorem solid_start {name : List Char} (named : Tag.IsName name) : ∀ c ∈ '<' :: name, isSolid c :=
  List.forall_mem_cons.mpr
    ⟨by decide, fun c found => isSolid_of_isNameChar (named.all_isNameChar c found)⟩

theorem solid_end {name : List Char} (named : Tag.IsName name) :
    ∀ c ∈ '<' :: '/' :: name, isSolid c :=
  List.forall_mem_cons.mpr ⟨by decide, List.forall_mem_cons.mpr
    ⟨by decide, fun c found => isSolid_of_isNameChar (named.all_isNameChar c found)⟩⟩

namespace Steady

variable {rel : List Atom → List Atom → Prop} {name : List Char}
  {first second taken behind others rest atoms : List Atom} {tokens : List Token}

theorem ofRun (steady : Steady rel) (related : rel first second) :
    List.Forall₂ (Shown rel) (Token.ofRun first) (Token.ofRun second) := by
  cases first with
  | nil =>
      obtain rfl := steady.nil_left.mp related
      exact .nil
  | cons atom first =>
      cases second with
      | nil => cases steady.nil_right.mp related
      | cons other second => exact .cons (.text related) .nil

theorem isStartTag (steady : Steady rel) (related : rel first second)
    (start : IsStartTag name first) : IsStartTag name second where
  name := start.name
  ends := by
    have same := steady.ends (steady.append related (steady.solid (c := '>') (by decide)))
    exact any_endsName_iff.mp (same ▸ any_endsName_iff.mpr start.ends)
  inside := (steady.inside false related).mp start.inside

/-- What is related to an item, with related atoms behind it, is an item. -/
theorem item (steady : Steady rel) (item : Item taken tokens behind) (run : rel taken others)
    (back : rel behind rest) :
    ∃ shown, Item others shown rest ∧ List.Forall₂ (Shown rel) tokens shown := by
  have bracket : isSolid '<' := by decide
  cases item with
  | text filled plain stops =>
      refine ⟨_, .text (fun empty => ?_) (fun found => ?_) (fun followed => ?_),
        .cons (.text run) .nil⟩
      · subst empty
        exact filled (steady.nil_right.mp run)
      · exact plain (steady.swap.mem bracket run found)
      · refine steady.head?_eq bracket back (stops fun empty => ?_)
        subst empty
        exact followed (steady.nil_left.mp back)
  | comment upto made =>
      obtain rfl := isComment_iff.mp made
      rw [List.append_assoc] at run
      obtain ⟨inner, rfl, inners⟩ := steady.unword (List.all_eq_true.mp rfl) run
      obtain ⟨body, rfl, bodies⟩ := steady.unword_right _ (List.all_eq_true.mp rfl) inners
      rw [← List.append_assoc]
      have ends : ∀ c ∈ ['-', '-', '>'], isSolid c := List.all_eq_true.mp rfl
      exact ⟨_, .comment (steady.goesUpTo (by decide) ends bodies (steady.word ends back) upto)
        (isComment_iff.mpr rfl), .cons (steady.ofComment bodies) .nil⟩
  | endTag named white =>
      rw [List.append_assoc] at run
      obtain ⟨inner, rfl, inners⟩ := steady.unword (solid_end named) run
      obtain ⟨front, rfl, fronts⟩ := steady.unword_right ['>'] (List.all_eq_true.mp rfl) inners
      rw [← List.append_assoc]
      simp only [← isBlank_iff] at white
      have blank := (steady.blank fronts).mp white
      exact ⟨_, .endTag named fun atom found => isBlank_iff.mp (blank atom found),
        .cons (.closing _) .nil⟩
  | startTag start other =>
      rename_i name _
      rw [List.append_assoc] at run
      obtain ⟨inner, rfl, inners⟩ := steady.unword (solid_start start.name) run
      obtain ⟨inside, rfl, insides⟩ := steady.unword_right ['>'] (List.all_eq_true.mp rfl) inners
      have shown := steady.ofStartTag name insides
      rw [shown.opensRawText_eq] at other
      rw [← List.append_assoc]
      exact ⟨_, .startTag (steady.isStartTag insides start) other, .cons shown .nil⟩
  | rawText start raw upto =>
      rename_i name inside body
      have tag : Token.word ('<' :: name) ++ inside ++ [.char '>'] ++ body =
          Token.word ('<' :: name) ++ (inside ++ .char '>' :: body) := by simp
      rw [tag] at run
      obtain ⟨inner, rfl, inners⟩ := steady.unword (solid_start start.name) run
      obtain ⟨other, content, rfl, insides, bodies⟩ := steady.cut_left (by decide) inners
      have other_tag : Token.word ('<' :: name) ++ (other ++ .char '>' :: content) =
          Token.word ('<' :: name) ++ other ++ [.char '>'] ++ content := by simp
      have shown := steady.ofStartTag name insides
      rw [shown.opensRawText_eq] at raw
      rw [other_tag]
      exact ⟨_, .rawText (steady.isStartTag insides start) raw
        (steady.goesUpTo (List.cons_ne_nil _ _) (solid_end start.name) bodies back upto),
        .cons shown (steady.ofRun bodies)⟩

/-- Chunks are cut between two items at the same places as related ones. -/
theorem exists_cut (steady : Steady rel) (item : Item taken tokens behind)
    (related : rel (taken ++ behind) atoms) :
    ∃ others rest, atoms = others ++ rest ∧ rel taken others ∧ rel behind rest := by
  have closed (ends : taken.getLast? = some (.char '>')) :
      ∃ others rest, atoms = others ++ rest ∧ rel taken others ∧ rel behind rest := by
    obtain ⟨front, rfl⟩ := List.getLast?_eq_some_iff.mp ends
    rw [List.append_assoc] at related
    obtain ⟨before, after, rfl, fronts, backs⟩ := steady.cut_left (by decide) related
    exact ⟨before ++ [.char '>'], after, by simp,
      steady.append fronts (steady.solid (by decide)), backs⟩
  have opened (begins : behind.head? = some (.char '<')) :
      ∃ others rest, atoms = others ++ rest ∧ rel taken others ∧ rel behind rest := by
    obtain ⟨back, rfl⟩ := List.head?_eq_some_iff.mp begins
    obtain ⟨before, after, rfl, fronts, backs⟩ := steady.cut_left (by decide) related
    exact ⟨before, _, rfl, fronts, steady.cons (by decide) backs⟩
  have last (empty : behind = []) :
      ∃ others rest, atoms = others ++ rest ∧ rel taken others ∧ rel behind rest := by
    subst empty
    rw [List.append_nil] at related
    exact ⟨atoms, [], (List.append_nil atoms).symm, related, steady.nil_left.mpr rfl⟩
  cases item with
  | text filled plain stops =>
      by_cases followed : behind = []
      · exact last followed
      · exact opened (stops followed)
  | comment upto _ => exact closed (by simp [Token.word, List.getLast?_cons])
  | endTag named blank => exact closed List.getLast?_concat
  | startTag start other => exact closed List.getLast?_concat
  | rawText start raw upto =>
      obtain ⟨rest, rfl⟩ := upto.stands
      exact opened rfl

/-- What is related to a row of items is a row of items with tokens that show the same. -/
theorem itemized (steady : Steady rel) (items : Itemized first tokens) (related : rel first second) :
    ∃ shown, Itemized second shown ∧ List.Forall₂ (Shown rel) tokens shown := by
  induction items generalizing second with
  | nil => 
      obtain rfl := steady.nil_left.mp related
      exact ⟨[], .nil, .nil⟩
  | cons item _ induction =>
      obtain ⟨others, rest, rfl, run, back⟩ := steady.exists_cut item related
      obtain ⟨shown, taken, same⟩ := steady.item item run back
      obtain ⟨more, items, rest_same⟩ := induction back
      exact ⟨shown ++ more, .cons taken items, List.rel_append same rest_same⟩

end Steady

/-! ## The respelled text -/

theorem trimEnd_cons (atom : Atom) (rest : List Atom) :
    trimEnd (atom :: rest) =
      if isBlank atom && (trimEnd rest).isEmpty then [] else atom :: trimEnd rest := by
  rw [trimEnd, trimEnd, List.reverse_cons, List.dropWhile_append]
  cases rest.reverse.dropWhile isBlank with
  | nil => cases blank : isBlank atom <;> simp [blank]
  | cons last front => simp

theorem isInside_cons_of_ne {quotes : Bool} {c : Char} {rest : List Atom} (bracket : c ≠ '>')
    (quote : c ≠ '"') : IsInside quotes (.char c :: rest) ↔ IsInside quotes rest := by
  simp [isInside_cons, bracket, quote]

namespace Respelled

variable {c : Char} {run other front back : List Atom}

theorem ne_of_isMarked (marked : isMarked c) : c ≠ '>' ∧ c ≠ '"' ∧ Text.isBlank c = false ∧
    endsName (.char c) = false := by
  simp only [isMarked, Bool.or_eq_true, beq_iff_eq] at marked
  rcases marked with (rfl | rfl) | rfl <;> decide

theorem ne_of_isSolid (solid : isSolid c) :
    isMarked c = false ∧ c ≠ '\\' ∧ c ≠ '\r' ∧ c ≠ '\n' := by
  simp only [isSolid, Bool.and_eq_true, Bool.not_eq_true'] at solid
  refine ⟨solid.1, ?_, ?_, ?_⟩ <;> rintro rfl
  · exact absurd solid.1 (by decide)
  · exact absurd solid.2 (by decide)
  · exact absurd solid.2 (by decide)

theorem append (first : Respelled run other) (second : Respelled front back) :
    Respelled (run ++ front) (other ++ back) := by
  induction first with
  | nil => exact second
  | kept plain kept _ induction => exact .kept plain kept induction
  | marked marked _ induction => exact .marked marked induction
  | lineEnd _ induction => exact .lineEnd induction
  | carriageReturn _ induction => exact .carriageReturn induction

/-- A run that does not begin with a character has what is before it begin there. -/
private theorem cut_cons {atom : Atom} (split : front ++ .char c :: back = atom :: run)
    (other : atom ≠ .char c) : ∃ rest, front = atom :: rest ∧ rest ++ .char c :: back = run := by
  rcases List.append_eq_cons_iff.mp split with ⟨-, here⟩ | ⟨rest, front_eq, rest_eq⟩
  · exact absurd (List.cons.inj here).1.symm other
  · exact ⟨rest, front_eq, rest_eq.symm⟩

theorem cut_left (solid : isSolid c) (related : Respelled (front ++ .char c :: back) other) :
    ∃ before after, other = before ++ .char c :: after ∧ Respelled front before ∧
      Respelled back after := by
  obtain ⟨plain, -, no_return, no_feed⟩ := ne_of_isSolid solid
  generalize split : front ++ .char c :: back = run at related
  induction related generalizing front with
  | nil => simp at split
  | @kept d run other here kept related induction =>
      rcases List.append_eq_cons_iff.mp split with ⟨rfl, begins⟩ | ⟨rest, rfl, rest_eq⟩
      · obtain ⟨begins, rfl⟩ := List.cons.inj begins
        cases begins
        exact ⟨[], _, rfl, .nil, related⟩
      · obtain ⟨before, after, rfl, fronts, backs⟩ := induction rest_eq.symm
        exact ⟨_ :: before, after, rfl, .kept here kept fronts, backs⟩
  | @marked d run other marked _ induction =>
      obtain ⟨rest, rfl, rest_eq⟩ := cut_cons split fun same => by
        cases same
        rw [plain] at marked
        cases marked
      obtain ⟨before, after, rfl, fronts, backs⟩ := induction rest_eq
      exact ⟨_ :: _ :: before, after, rfl, .marked marked fronts, backs⟩
  | lineEnd _ induction =>
      obtain ⟨rest, rfl, rest_eq⟩ := cut_cons split (by simpa using no_return.symm)
      obtain ⟨inner, rfl, inner_eq⟩ := cut_cons rest_eq (by simpa using no_feed.symm)
      obtain ⟨before, after, rfl, fronts, backs⟩ := induction inner_eq
      exact ⟨_ :: before, after, rfl, .lineEnd fronts, backs⟩
  | carriageReturn _ induction =>
      obtain ⟨rest, rfl, rest_eq⟩ := cut_cons split (by simpa using no_return.symm)
      obtain ⟨before, after, rfl, fronts, backs⟩ := induction rest_eq
      exact ⟨_ :: before, after, rfl, .carriageReturn fronts, backs⟩

theorem cut_right (solid : isSolid c) (related : Respelled run (front ++ .char c :: back)) :
    ∃ before after, run = before ++ .char c :: after ∧ Respelled before front ∧
      Respelled after back := by
  obtain ⟨plain, no_slash, -, no_feed⟩ := ne_of_isSolid solid
  generalize split : front ++ .char c :: back = other at related
  induction related generalizing front with
  | nil => simp at split
  | @kept d run other here kept related induction =>
      rcases List.append_eq_cons_iff.mp split with ⟨rfl, begins⟩ | ⟨rest, rfl, rest_eq⟩
      · obtain ⟨begins, rfl⟩ := List.cons.inj begins
        cases begins
        exact ⟨[], _, rfl, .nil, related⟩
      · obtain ⟨before, after, rfl, fronts, backs⟩ := induction rest_eq.symm
        exact ⟨_ :: before, after, rfl, .kept here kept fronts, backs⟩
  | @marked d run other marked _ induction =>
      obtain ⟨rest, rfl, rest_eq⟩ := cut_cons split (by simpa using no_slash.symm)
      obtain ⟨inner, rfl, inner_eq⟩ := cut_cons rest_eq fun same => by
        cases same
        rw [plain] at marked
        cases marked
      obtain ⟨before, after, rfl, fronts, backs⟩ := induction inner_eq
      exact ⟨_ :: before, after, rfl, .marked marked fronts, backs⟩
  | lineEnd _ induction =>
      obtain ⟨rest, rfl, rest_eq⟩ := cut_cons split (by simpa using no_feed.symm)
      obtain ⟨before, after, rfl, fronts, backs⟩ := induction rest_eq
      exact ⟨_ :: _ :: before, after, rfl, .lineEnd fronts, backs⟩
  | carriageReturn _ induction =>
      obtain ⟨rest, rfl, rest_eq⟩ := cut_cons split (by simpa using no_feed.symm)
      obtain ⟨before, after, rfl, fronts, backs⟩ := induction rest_eq
      exact ⟨_ :: before, after, rfl, .carriageReturn fronts, backs⟩

theorem nil_left : Respelled [] other ↔ other = [] :=
  ⟨fun related => by cases related; rfl, fun empty => empty ▸ .nil⟩

theorem nil_right : Respelled run [] ↔ run = [] :=
  ⟨fun related => by cases related; rfl, fun empty => empty ▸ .nil⟩

theorem isEmpty_eq (related : Respelled run other) : run.isEmpty = other.isEmpty := by
  cases related <;> rfl

theorem blank (related : Respelled run other) :
    (∀ atom ∈ run, isBlank atom) ↔ ∀ atom ∈ other, isBlank atom := by
  have feed : isBlank (.char '\n') := by decide
  have carriage : isBlank (.char '\r') := by decide
  induction related with
  | nil => exact Iff.rfl
  | kept _ _ _ induction => simp only [List.forall_mem_cons, induction]
  | marked marked _ _ =>
      have solid : isBlank (.char _) = false := (ne_of_isMarked marked).2.2.1
      simp only [List.forall_mem_cons, solid]
      simp
  | lineEnd _ induction => simp only [List.forall_mem_cons, induction, feed, carriage, true_and]
  | carriageReturn _ induction =>
      simp only [List.forall_mem_cons, induction, feed, carriage, true_and]

theorem ends (related : Respelled run other) :
    run.head?.any endsName = other.head?.any endsName := by
  cases related with
  | nil | kept | lineEnd | carriageReturn => rfl
  | marked marked _ => exact (ne_of_isMarked marked).2.2.2

theorem inside (quotes : Bool) (related : Respelled run other) :
    IsInside quotes run ↔ IsInside quotes other := by
  induction related generalizing quotes with
  | nil => exact Iff.rfl
  | kept _ _ _ induction => rw [isInside_cons, isInside_cons, induction]
  | marked marked _ induction =>
      obtain ⟨bracket, quote, -⟩ := ne_of_isMarked marked
      rw [isInside_cons_of_ne bracket quote, isInside_cons_of_ne (by decide) (by decide),
        isInside_cons_of_ne bracket quote, induction]
  | lineEnd _ induction =>
      rw [isInside_cons_of_ne (by decide) (by decide), isInside_cons_of_ne (by decide) (by decide),
        isInside_cons_of_ne (by decide) (by decide), induction]
  | carriageReturn _ induction =>
      rw [isInside_cons_of_ne (by decide) (by decide), isInside_cons_of_ne (by decide) (by decide),
        induction]

theorem trimStart (related : Respelled run other) :
    Respelled (run.dropWhile isBlank) (other.dropWhile isBlank) := by
  induction related with
  | nil => exact .nil
  | @kept c _ _ plain kept related induction =>
      cases blank : isBlank (.char c) with
      | true => rwa [List.dropWhile_cons_of_pos blank, List.dropWhile_cons_of_pos blank]
      | false =>
          rw [List.dropWhile_cons_of_neg (by simp [blank]),
            List.dropWhile_cons_of_neg (by simp [blank])]
          exact .kept plain kept related
  | marked marked related _ =>
      have solid : isBlank (.char _) = false := (ne_of_isMarked marked).2.2.1
      rw [List.dropWhile_cons_of_neg (by simp [solid]), List.dropWhile_cons_of_neg (by decide)]
      exact .marked marked related
  | lineEnd _ induction => exact induction
  | carriageReturn _ induction => exact induction

theorem trimEnd (related : Respelled run other) :
    Respelled (Token.trimEnd run) (Token.trimEnd other) := by
  have feed : isBlank (.char '\n') := by decide
  have carriage : isBlank (.char '\r') := by decide
  have slash : isBlank (.char '\\') = false := by decide
  induction related with
  | nil => exact .nil
  | @kept c run other plain kept _ induction =>
      have empty := isEmpty_eq induction
      rw [trimEnd_cons, trimEnd_cons, empty]
      split
      · exact .nil
      · exact .kept plain kept induction
  | marked marked _ induction =>
      have solid : isBlank (.char _) = false := (ne_of_isMarked marked).2.2.1
      simp only [trimEnd_cons, solid, slash, Bool.false_and, Bool.false_eq_true, if_false]
      exact .marked marked induction
  | @lineEnd run other _ induction => 
      have empty := isEmpty_eq induction
      simp only [trimEnd_cons, feed, carriage, Bool.true_and, empty]
      split
      · exact .nil
      · exact .lineEnd induction
  | @carriageReturn run other _ induction =>
      have empty := isEmpty_eq induction
      simp only [trimEnd_cons, feed, carriage, Bool.true_and, empty]
      split
      · exact .nil
      · exact .carriageReturn induction

/-- No tag or comment begins or ends at another place in the respelled text. -/
theorem steady : Steady Respelled where
  append := append
  nil_left := nil_left
  nil_right := nil_right
  solid solid :=
    .kept (ne_of_isSolid solid).1 (ne_of_isSolid solid).2.2.1 .nil
  cut_left := cut_left
  cut_right := cut_right
  blank := blank
  ends := ends
  inside := inside
  trimStart := trimStart
  trimEnd := trimEnd

end Respelled

/-- The text of a template literal is that which the literal was written for, respelled. -/
theorem respelled_raw (content : List Char) :
    Respelled (word content) (word (Script.Template.raw content)) := by
  induction content using Script.normalizeLines.induct with
  | case1 => exact .nil
  | case2 rest induction => exact .lineEnd induction
  | case3 c rest apart induction =>
      cases marked : isMarked c with
      | true =>
          rw [Script.Template.raw_marked marked]
          exact .marked marked induction
      | false =>
          by_cases carriage : c = '\r'
          · subst carriage
            rw [Script.Template.raw_carriageReturn fun begins => ?_]
            · exact .carriageReturn induction
            · obtain ⟨more, rest_eq⟩ := List.head?_eq_some_iff.mp begins
              exact apart more rfl rest_eq
          · rw [Script.Template.raw_plain marked carriage]
            exact .kept marked carriage induction

end IslandSlots.Token
