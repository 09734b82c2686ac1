import IslandSlots.Proofs.Markup.Grammar

/-!
# Where raw text ends

The content of a `script` or `style` element goes up to the first place where `</` and the name of
the element stand. The end tag there is read like any other, with the longest name it has. So the
element ends with its own end tag if no character of a name follows at that place; where one does,
the raw text is cut and the end tag of a longer name is put behind it.
-/

namespace IslandSlots

/-- A run goes up to a mark whatever is behind the mark. -/
theorem Text.GoesUpTo.of_append {α : Type} {mark run behind more : List α}
    (upto : Text.GoesUpTo mark run (behind ++ more)) (stands : mark <+: behind) :
    Text.GoesUpTo mark run behind where
  stands := stands
  first := by
    intro front back split here
    refine upto.first front (back ++ more) ?_ (here.trans (List.prefix_append back more))
    rw [← List.append_assoc, split, List.append_assoc]

namespace Token

/-- The text that begins the end tag of an element. -/
def endMark (name : List Char) : List Atom :=
  word ('<' :: '/' :: name)

/-- An element with raw text in a chunk, from its start tag up to the end tag behind the text. -/
structure RawElement where
  /-- The name of the element. -/
  name : List Char
  /-- The start tag between the name and its end. -/
  inside : List Atom
  /-- The raw text. -/
  body : List Atom
  /-- What the name of the end tag has behind the name of the element. -/
  more : List Char
  /-- The blanks behind the name of the end tag. -/
  blanks : List Atom

namespace RawElement

/-- The start tag and the raw text. -/
def opened (element : RawElement) : List Atom :=
  word ('<' :: element.name) ++ (element.inside ++ .char '>' :: element.body)

/-- The end tag behind the raw text. -/
def ending (element : RawElement) : List Atom :=
  endMark element.name ++ (word element.more ++ (element.blanks ++ [.char '>']))

/-- The raw text goes up to the first place where the end tag of the element may begin, and the
name there goes as far as it can. -/
structure StandsBefore (element : RawElement) (behind : List Atom) : Prop where
  /-- The start tag is one. -/
  start : IsStartTag element.name element.inside
  /-- What is behind it is raw text. -/
  raw : (ofStartTag element.name element.inside).opensRawText
  /-- The raw text goes up to the first place where the end tag may begin. -/
  upto : Text.GoesUpTo (endMark element.name) element.body (element.ending ++ behind)
  /-- What follows the name of the element belongs to the name of the end tag. -/
  named : ∀ c ∈ element.more, Tag.isNameChar c
  /-- Nothing but blanks is behind that name. -/
  blank : ∀ atom ∈ element.blanks, isBlank atom

end RawElement

/-- Some tokens begin with the end tag of an element, with one text in front of it at most. -/
def EndsRawText (tag : String) (tokens : List Token) : Prop :=
  ∃ body rest, tokens = ofRun body ++ .closing tag :: rest

/-! ## The end tag -/

/-- A blank or the end of a tag is no part of a name. -/
theorem leadingName_blanks {blanks : List Atom} (blank : ∀ atom ∈ blanks, isBlank atom)
    (behind : List Atom) : leadingName (blanks ++ .char '>' :: behind) = [] := by
  apply leadingName_of_endsName
  cases blanks with
  | nil => rfl
  | cons atom blanks => exact endsName_of_isBlank (blank atom List.mem_cons_self)

/-- A name in front of a text is the beginning of the longest one there. -/
theorem prefix_of_word {name other : List Char} {behind : List Atom}
    (named : ∀ c ∈ name, Tag.isNameChar c) (ends : leadingName behind = [])
    (stands : word name <+: word other ++ behind) : name <+: other := by
  induction name generalizing other with
  | nil => exact List.nil_prefix
  | cons c name induction =>
      obtain ⟨c_named, named⟩ := List.forall_mem_cons.mp named
      cases other with
      | nil =>
          obtain ⟨after, rfl⟩ := stands
          rw [word, List.map_cons, List.cons_append, leadingName, if_pos c_named] at ends
          cases ends
      | cons d other =>
          obtain ⟨same, later⟩ := List.cons_prefix_cons.mp stands
          obtain rfl := Atom.char.inj same
          exact List.cons_prefix_cons.mpr ⟨rfl, induction named later⟩

/-- No end tag begins where a start tag does. -/
theorem not_endMark_of_isName (name : List Char) {other : List Char} (named : Tag.IsName other)
    (rest : List Atom) : ¬endMark name <+: word ('<' :: other) ++ rest := by
  intro stands
  obtain ⟨c, first, lower⟩ := named.begins
  obtain ⟨other, rfl⟩ := List.head?_eq_some_iff.mp first
  obtain ⟨same, -⟩ := List.cons_prefix_cons.mp (List.cons_prefix_cons.mp stands).2
  obtain rfl := Atom.char.inj same
  exact absurd lower (by decide)

/-- An item that begins where an end tag may begin is one, and its name may be longer. -/
theorem Item.of_endMark {name : List Char} {taken behind rest : List Atom} {tokens : List Token}
    (named : Tag.IsName name) (item : Item taken tokens behind)
    (stands : endMark name <+: taken ++ rest) :
    ∃ more blanks, taken = endMark name ++ (word more ++ (blanks ++ [.char '>'])) ∧
      tokens = [.closing (String.ofList (name ++ more))] ∧ (∀ c ∈ more, Tag.isNameChar c) ∧
      ∀ atom ∈ blanks, isBlank atom := by
  cases item with
  | text filled plain =>
      obtain ⟨atom, run, rfl⟩ := List.exists_cons_of_ne_nil filled
      obtain rfl := (List.cons_prefix_cons.mp stands).1
      exact absurd List.mem_cons_self plain
  | comment =>
      cases (List.cons_prefix_cons.mp (List.cons_prefix_cons.mp stands).2).1
  | @endTag other blanks _ other_named white =>
      have whole : word name <+: word other ++ (blanks ++ .char '>' :: rest) := by
        simpa [endMark, word] using stands
      have blank : ∀ atom ∈ blanks, isBlank atom :=
        fun atom found => isBlank_iff.mpr (white atom found)
      obtain ⟨more, rfl⟩ :=
        prefix_of_word named.all_isNameChar (leadingName_blanks blank rest) whole
      exact ⟨more, blanks, by simp [endMark, word], rfl,
        fun c member => other_named.all_isNameChar c (List.mem_append_right name member), blank⟩
  | startTag start =>
      simp only [List.append_assoc] at stands
      exact absurd stands (not_endMark_of_isName name start.name _)
  | rawText start =>
      simp only [List.append_assoc] at stands
      exact absurd stands (not_endMark_of_isName name start.name _)

/-- A row of items that begins where an end tag may begin begins with an end tag. -/
theorem Itemized.of_endMark {name : List Char} {atoms : List Atom} {tokens : List Token}
    (named : Tag.IsName name) (itemized : Itemized atoms tokens)
    (stands : endMark name <+: atoms) :
    ∃ more blanks behind rest,
      atoms = endMark name ++ (word more ++ (blanks ++ [.char '>'])) ++ behind ∧
      tokens = .closing (String.ofList (name ++ more)) :: rest ∧ Itemized behind rest ∧
      (∀ c ∈ more, Tag.isNameChar c) ∧ ∀ atom ∈ blanks, isBlank atom := by
  cases itemized with
  | nil => cases List.prefix_nil.mp stands
  | cons item later =>
      obtain ⟨more, blanks, rfl, rfl, more_named, blank⟩ := item.of_endMark named stands
      exact ⟨more, blanks, _, _, rfl, rfl, later, more_named, blank⟩

/-! ## Items in front of a start tag -/

section BeforeStartTag

variable {other : List Char} {atoms rest : List Atom} {tokens : List Token}

/-- Where an end tag may begin at the front of items, the start tag behind them is no part of it. -/
theorem endMark_prefix_of_append {name : List Char} (named : Tag.IsName name)
    (other_named : Tag.IsName other) (itemized : Itemized atoms tokens)
    (stands : endMark name <+: atoms ++ (word ('<' :: other) ++ rest)) :
    endMark name <+: atoms := by
  cases itemized with
  | nil => exact absurd stands (not_endMark_of_isName name other_named rest)
  | cons item =>
      rw [List.append_assoc] at stands
      obtain ⟨more, blanks, rfl, -⟩ := item.of_endMark named stands
      rw [List.append_assoc]
      exact List.prefix_append _ _

/-- An item stays one when a start tag further behind is taken away. -/
theorem Item.of_append {taken : List Atom} {more : List Token} (other_named : Tag.IsName other)
    (itemized : Itemized atoms more)
    (item : Item taken tokens (atoms ++ (word ('<' :: other) ++ rest))) :
    Item taken tokens atoms := by
  cases item with
  | text filled plain stops =>
      refine .text filled plain fun atoms_filled => ?_
      rw [← List.head?_append_of_ne_nil _ atoms_filled]
      exact stops (List.append_ne_nil_of_left_ne_nil atoms_filled _)
  | comment upto made =>
      rw [← List.append_assoc] at upto
      exact .comment (upto.of_append (List.prefix_append _ _)) made
  | endTag named blank => exact .endTag named blank
  | startTag start plain => exact .startTag start plain
  | rawText start raw upto =>
      exact .rawText start raw
        (upto.of_append (endMark_prefix_of_append start.name other_named itemized upto.stands))

end BeforeStartTag

/-! ## The element of a start tag -/

theorem opensRawText_ofRun (run : List Atom) : ∀ token ∈ ofRun run, token.opensRawText = false := by
  intro token member
  rw [ofRun] at member
  split at member
  · cases member
  · obtain rfl := List.mem_singleton.mp member
    rfl

/-- Where two runs together have an entry, it is in the one or in the other. -/
theorem append_eq_append_cons {α : Type} {xs ys front back : List α} {entry : α}
    (split : xs ++ ys = front ++ entry :: back) :
    (∃ inner, front = xs ++ inner ∧ ys = inner ++ entry :: back) ∨
      ∃ inner, xs = front ++ entry :: inner ∧ back = inner ++ ys := by
  rcases List.append_eq_append_iff.mp split with ⟨inner, front_eq, ys_eq⟩ | ⟨inner, rfl, back_eq⟩
  · exact .inl ⟨inner, front_eq, ys_eq⟩
  · cases inner with
    | nil => exact .inl ⟨[], by simp, back_eq.symm⟩
    | cons first inner =>
        obtain ⟨rfl, rfl⟩ := List.cons.inj back_eq
        exact .inr ⟨inner, rfl, rfl⟩

/-- An item with a start tag that raw text follows is that start tag with the raw text. -/
theorem Item.of_opensRawText {taken behind : List Atom} {tokens before after : List Token}
    {token : Token} (item : Item taken tokens behind) (split : tokens = before ++ token :: after)
    (raw : token.opensRawText) :
    ∃ name inside body, IsStartTag name inside ∧
      Text.GoesUpTo (endMark name) body behind ∧
      taken = word ('<' :: name) ++ inside ++ [.char '>'] ++ body ∧
      before = [] ∧ token = ofStartTag name inside ∧ after = ofRun body := by
  have lone {single : Token} (same : [single] = before ++ token :: after)
      (other : single.opensRawText = false) : False := by
    have member : token ∈ [single] := same ▸ List.mem_append_right before List.mem_cons_self
    obtain rfl := List.mem_singleton.mp member
    rw [other] at raw
    cases raw
  cases item with
  | text => exact (lone split rfl).elim
  | comment _ made => exact (lone split (by cases made <;> rfl)).elim
  | endTag => exact (lone split rfl).elim
  | startTag start plain => exact (lone split plain).elim
  | @rawText name inside body _ start _ upto =>
      cases before with
      | nil =>
          obtain ⟨rfl, rfl⟩ := List.cons.inj split
          exact ⟨name, inside, body, start, upto, rfl, rfl, rfl, rfl⟩
      | cons first before =>
          have member : token ∈ ofRun body :=
            (List.cons.inj split).2 ▸ List.mem_append_right before List.mem_cons_self
          rw [opensRawText_ofRun body token member] at raw
          cases raw

/-- A start tag that raw text follows comes with the raw text and an end tag, between the items in
front of it and those behind. -/
theorem Itemized.exists_rawElement {atoms : List Atom} {tokens before after : List Token}
    {token : Token} (itemized : Itemized atoms tokens) (split : tokens = before ++ token :: after)
    (raw : token.opensRawText) :
    ∃ (element : RawElement) (front behind : List Atom) (rest : List Token),
      atoms = front ++ (element.opened ++ (element.ending ++ behind)) ∧
      token = ofStartTag element.name element.inside ∧
      after = ofRun element.body ++
        .closing (String.ofList (element.name ++ element.more)) :: rest ∧
      element.StandsBefore behind ∧ Itemized front before ∧ Itemized behind rest := by
  induction itemized generalizing before with
  | nil => cases (List.append_eq_nil_iff.mp split.symm).2
  | @cons taken behind tokens more item later induction =>
      rcases append_eq_append_cons split with ⟨inner, rfl, more_eq⟩ | ⟨inner, tokens_eq, rfl⟩
      · obtain ⟨element, front, back, rest, rfl, start_eq, after_eq, stands, front_items,
          back_items⟩ := induction more_eq
        rw [RawElement.opened, List.append_assoc] at item
        exact ⟨element, taken ++ front, back, rest, by rw [List.append_assoc], start_eq, after_eq,
          stands, .cons (item.of_append stands.start.name front_items) front_items, back_items⟩
      · obtain ⟨name, inside, body, start, upto, rfl, rfl, rfl, rfl⟩ :=
          item.of_opensRawText tokens_eq raw
        obtain ⟨more, blanks, back, rest, rfl, rfl, back_items, named, blank⟩ :=
          later.of_endMark start.name upto.stands
        exact ⟨⟨name, inside, body, more, blanks⟩, [], back, rest,
          by simp [RawElement.opened, RawElement.ending], rfl, by simp,
          ⟨start, raw, upto, named, blank⟩, .nil, back_items⟩

/-- The text in front of an end tag tells nothing about the name of the end tag. -/
theorem closing_of_ofRun (run : List Atom) {other : List Atom} {tag other_tag : String}
    {rest other_rest : List Token}
    (same : ofRun run ++ .closing tag :: rest = ofRun other ++ .closing other_tag :: other_rest) :
    tag = other_tag := by
  unfold ofRun at same
  split at same <;> split at same <;> simp_all

end Token

open Token

/-- A start tag that raw text follows has behind it the raw text, if there is any, and an end tag
whose name begins with that of the element. The element ends with its own end tag exactly when no
character of a name follows where its end tag may begin first. -/
theorem Markup.tokens_rawText {markup : Markup} {before after : List Token} {tag attrs : String}
    (found : markup.tokens = .ok (before ++ .opening tag attrs false :: after))
    (raw : Tag.isRawText tag) :
    ∃ (element : RawElement) (front behind : List Atom) (rest : List Token),
      markup.atoms = front ++ (element.opened ++ (element.ending ++ behind)) ∧
      .opening tag attrs false = ofStartTag element.name element.inside ∧
      element.StandsBefore behind ∧ Itemized front before ∧ Itemized behind rest ∧
      after = ofRun element.body ++ .closing (tag ++ String.ofList element.more) :: rest ∧
      (EndsRawText tag after ↔ element.more = []) := by
  obtain ⟨element, front, behind, rest, atoms_eq, start_eq, after_eq, stands, front_items,
    behind_items⟩ := (itemized_of_ofAtoms found).exists_rawElement rfl
    (by simpa [opensRawText, Tag.isRawText_eq] using raw)
  obtain ⟨rfl, -, -⟩ := Token.opening.inj start_eq
  rw [String.ofList_append] at after_eq
  refine ⟨element, front, behind, rest, atoms_eq, start_eq, stands, front_items, behind_items,
    after_eq, ?_, ?_⟩
  · rintro ⟨other, other_rest, other_eq⟩
    have same := closing_of_ofRun element.body (after_eq.symm.trans other_eq)
    simpa [← String.ofList_append, String.ofList_inj] using same
  · intro whole
    rw [whole] at after_eq
    exact ⟨element.body, rest, by simpa using after_eq⟩

/-- The end tags of other elements and the holes are part of the raw text. -/
theorem Markup.tokens_rawText_hole :
    let markup : Markup := ⟨[.text "<p><style>a</b", .hole "x", .text "</style >c"]⟩
    let after : List Token := [.text "a</b$\x7bx\x7d", .closing "style", .text "c"]
    markup.tokens = .ok ([.opening "p" "" false] ++ .opening "style" "" false :: after) ∧
      EndsRawText "style" after ∧
      ∃ (element : RawElement) (front behind : List Atom), element.more = [] ∧
        markup.atoms = front ++ (element.opened ++ (element.ending ++ behind)) ∧
        element.StandsBefore behind := by
  intro markup after
  have found :
      markup.tokens = .ok ([.opening "p" "" false] ++ .opening "style" "" false :: after) :=
    eq_ok_of_toOption (by decide +kernel)
  obtain ⟨element, front, behind, rest, atoms_eq, -, stands, -, -, -, ends_iff⟩ :=
    Markup.tokens_rawText found (by decide)
  have ends : EndsRawText "style" after := ⟨word "a</b".toList ++ [.hole "x"], [.text "c"], rfl⟩
  exact ⟨found, ends, element, front, behind, ends_iff.mp ends, atoms_eq, stands⟩

/-- A longer name that begins with the one of the element ends the raw text. -/
theorem Markup.tokens_longerEndTag :
    let markup : Markup := ⟨[.text "<style>a</styles>b</style>"]⟩
    let after : List Token := [.text "a", .closing "styles", .text "b", .closing "style"]
    markup.tokens = .ok (.opening "style" "" false :: after) ∧ ¬EndsRawText "style" after := by
  intro markup after
  refine ⟨eq_ok_of_toOption (by decide +kernel), ?_⟩
  rintro ⟨body, rest, same⟩
  have other : "styles" = "style" := closing_of_ofRun (word ['a']) same
  exact absurd other (by decide)

end IslandSlots
