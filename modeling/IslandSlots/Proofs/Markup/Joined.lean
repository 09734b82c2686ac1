import IslandSlots.Proofs.Markup.Grammar

/-!
# Chunks put one behind the other

A chunk that has tokens ends where a token does: every tag, comment and raw text in it is whole. So
what is put behind it is read as if it stood alone, and the tokens of both are those of the one and
then those of the other. Only where a text meets a text do they become one.
-/

namespace IslandSlots

/-- A run goes up to a mark whatever is put behind the mark. -/
theorem Text.GoesUpTo.append {α : Type} {mark run behind : List α}
    (upto : Text.GoesUpTo mark run behind) (more : List α) :
    Text.GoesUpTo mark run (behind ++ more) where
  stands := upto.stands.trans (List.prefix_append behind more)
  first := by
    intro front back split here
    by_contra sooner
    have marked := upto.stands.length_le
    obtain ⟨rest, rfl⟩ := here
    -- A mark that stands sooner ends before the one behind the run does.
    have inside : front ++ mark <+: run ++ behind :=
      List.prefix_of_prefix_length_le ⟨rest, by rw [List.append_assoc, ← split]⟩
        ⟨more, List.append_assoc run behind more⟩ (by
          simp only [List.length_append]
          omega)
    obtain ⟨left, whole⟩ := inside
    have later := upto.first front (mark ++ left) (by rw [← whole, List.append_assoc])
      (List.prefix_append mark left)
    exact sooner later

namespace Token

/-- The tokens of two chunks that are put one behind the other. -/
inductive Meets : List Token → List Token → List Token → Prop where
  /-- They stay as they are. -/
  | apart (first second : List Token) : Meets first second (first ++ second)
  /-- A text at the end of the one and a text at the front of the other are one. -/
  | text (front back : List Token) (content more : String) :
      Meets (front ++ [.text content]) (.text more :: back)
        (front ++ .text (content ++ more) :: back)

theorem Meets.append_left {first second all : List Token} (meets : Meets first second all)
    (front : List Token) : Meets (front ++ first) second (front ++ all) := by
  cases meets with
  | apart first second =>
      rw [← List.append_assoc]
      exact .apart (front ++ first) second
  | text before back content more =>
      rw [← List.append_assoc, ← List.append_assoc]
      exact .text (front ++ before) back content more

theorem render_append (front back : List Atom) :
    Atom.render (front ++ back) = Atom.render front ++ Atom.render back := by
  simp [Atom.render]

/-- An item stays one when more is put behind it, but for a text that goes on. -/
theorem Item.append {taken behind : List Atom} {tokens : List Token}
    (item : Item taken tokens behind) {more : List Atom}
    (stops : behind = [] → taken.head? ≠ some (.char '<') →
      more ≠ [] → more.head? = some (.char '<')) : Item taken tokens (behind ++ more) := by
  cases item with
  | text filled plain bracket =>
      refine .text filled plain fun followed => ?_
      by_cases last : behind = []
      · subst last
        exact stops rfl (fun here => plain (List.mem_of_mem_head? here)) followed
      · obtain ⟨first, rest, rfl⟩ := List.exists_cons_of_ne_nil last
        exact bracket last
  | comment upto made =>
      have further := upto.append more
      rw [List.append_assoc] at further
      exact .comment further made
  | endTag named blank => exact .endTag named blank
  | startTag start other => exact .startTag start other
  | rawText start raw upto => exact .rawText start raw (upto.append more)

theorem Itemized.eq_nil {tokens : List Token} (itemized : Itemized [] tokens) : tokens = [] := by
  have read := ofAtoms_of_itemized itemized 0
  rw [ofAtoms] at read
  exact (Except.ok.inj read).symm

/-- A row of items begins with a `<` or with a text, if anything is in it. -/
theorem Itemized.front {atoms : List Atom} {tokens : List Token}
    (itemized : Itemized atoms tokens) :
    (atoms ≠ [] → atoms.head? = some (.char '<')) ∨
      ∃ run behind rest, atoms = run ++ behind ∧ tokens = .text (Atom.render run) :: rest ∧
        Atom.char '<' ∉ run ∧ (behind ≠ [] → behind.head? = some (.char '<')) ∧
        Itemized behind rest := by
  cases itemized with
  | nil => exact .inl fun filled => absurd rfl filled
  | cons item rest =>
      cases item with
      | text filled plain stops => exact .inr ⟨_, _, _, rfl, rfl, plain, stops, rest⟩
      | comment | endTag | startTag | rawText => exact .inl fun _ => rfl

/-- Rows of items are one row when they are put one behind the other. -/
theorem Itemized.append {first second : List Atom} {tokens more : List Token}
    (left : Itemized first tokens) (right : Itemized second more) :
    ∃ all, Itemized (first ++ second) all ∧ Meets tokens more all := by
  induction left with
  | nil => exact ⟨more, right, .apart [] more⟩
  | @cons taken behind here rest item left induction =>
      obtain ⟨all, itemized, meets⟩ := induction
      rw [List.append_assoc]
      rcases right.front with bracket | ⟨run, after, later, rfl, rfl, plain, stops, right⟩
      · exact ⟨here ++ all, .cons (item.append fun _ _ => bracket) itemized,
          meets.append_left here⟩
      · by_cases goes_on : behind = [] ∧ taken.head? ≠ some (.char '<')
        · -- The item is a text at the end, and goes on with the text behind it.
          obtain ⟨rfl, unbracketed⟩ := goes_on
          obtain rfl := left.eq_nil
          cases item with
          | text filled other _ =>
              have whole : Item (taken ++ run) [.text (Atom.render (taken ++ run))] after :=
                .text (by simp [filled]) (by simp [other, plain]) stops
              rw [render_append] at whole
              have row := Itemized.cons whole right
              rw [List.append_assoc] at row
              exact ⟨_, row, .text [] later _ _⟩
          | comment | endTag | startTag | rawText => exact absurd rfl unbracketed
        · have item : Item taken here (behind ++ (run ++ after)) :=
            item.append fun last unbracketed => absurd ⟨last, unbracketed⟩ goes_on
          exact ⟨here ++ all, .cons item itemized, meets.append_left here⟩

end Token

namespace Markup

/-- A chunk put behind another one, with texts that meet joined. -/
def joined (first second : Markup) : Markup :=
  second.segments.foldl push first

theorem atoms_extend (text : String) (segments : List Segment) :
    (extend text segments).flatMap Segment.atoms =
      segments.flatMap Segment.atoms ++ (Segment.text text).atoms := by
  fun_induction extend text segments with
  | case1 => simp
  | case2 content => simp [Segment.atoms]
  | case3 segment rest other induction => simp [induction]

theorem atoms_push (markup : Markup) (segment : Segment) :
    (markup.push segment).atoms = markup.atoms ++ segment.atoms := by
  cases segment with
  | text content =>
      rw [push, pushText]
      split
      · rename_i empty
        obtain rfl := String.isEmpty_iff.mp empty
        simp [Segment.atoms]
      · exact atoms_extend content markup.segments
  | hole expression => simp [push, pushHole, atoms]

/-- The atoms of chunks that are put one behind the other are those of the one and then those of
the other. -/
theorem atoms_joined (first second : Markup) :
    (first.joined second).atoms = first.atoms ++ second.atoms := by
  obtain ⟨segments⟩ := second
  induction segments generalizing first with
  | nil => simp [joined, atoms]
  | cons segment segments induction =>
      have next := induction (first.push segment)
      rw [atoms_push, List.append_assoc] at next
      exact next

/-- Chunks that have tokens have those of both when they are put one behind the other. -/
theorem tokens_joined {first second : Markup} {tokens more : List Token}
    (first_tokens : first.tokens = .ok tokens) (second_tokens : second.tokens = .ok more) :
    ∃ all, (first.joined second).tokens = .ok all ∧ Token.Meets tokens more all := by
  obtain ⟨all, itemized, meets⟩ := (Token.itemized_of_ofAtoms first_tokens).append
    (Token.itemized_of_ofAtoms second_tokens)
  rw [← atoms_joined] at itemized
  exact ⟨all, Token.ofAtoms_of_itemized itemized 0, meets⟩

end Markup

end IslandSlots
