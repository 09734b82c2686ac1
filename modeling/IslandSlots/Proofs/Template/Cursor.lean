import IslandSlots.Proofs.Template.TagCursor

/-!
# Reading a template with a cursor

A template read byte by byte with a cursor that moves through its text, loop by loop. No step is
stopped, whatever the text: the cursor stays in it, every part that is taken begins and ends between
characters, and every loop comes to its end. The forest is the one of the template.
-/

namespace IslandSlots

open Text

namespace Cursor

/-! ## Pieces -/

section Pieces

variable (text : List Char) (base place : Nat)

/-- A place as it is reported, with the bytes before the template. None is behind the template. -/
def report : Unstopped Nat :=
  if place ≤ size text then .ok (base + place) else .error .outside

/-- A name of an element, and the place behind it. -/
def readName : Unstopped (String × Nat) := do
  let behind ← pass text TemplatePiece.isTagByte place
  return (TemplatePiece.spelled (← bytesBetween text place behind), behind)

/-- A comment, and the place behind it. -/
def readComment : Unstopped (Except TemplateError (TemplatePiece × Nat)) := do
  match ← bytesBefore? text (encode ['-', '-', '>']) (place + 4) with
  | some (inside, next) => return .ok (.comment (TemplatePiece.spelled inside), next)
  | none => return .error ⟨.unterminatedComment, ← report text base place⟩

/-- A closing tag, and the place behind it. -/
def readClosing : Unstopped (Except TemplateError (TemplatePiece × Nat)) := do
  let (tag, behind) ← readName text (place + 2)
  let solid ← pass text isBlankByte behind
  if (← peek text solid) = some (charByte '>') then
    return .ok (.closing tag ⟨← report text base place, ← report text base (solid + 1)⟩, solid + 1)
  else return .error ⟨.unterminatedClosingTag tag, ← report text base solid⟩

/-- An opening tag, and the place behind it. -/
def readOpening : Unstopped (Except TemplateError (TemplatePiece × Nat)) := do
  let (tag, behind) ← readName text (place + 1)
  match ← tagRest? text behind with
  | some (attributes, slash, next) =>
    let span := ⟨← report text base place, ← report text base next⟩
    return .ok (.opening ⟨tag, attributes, slash || TemplatePiece.isVoid tag, span⟩, next)
  | none => return .error ⟨.unterminatedTag tag, ← report text base place⟩

/-- An interpolation, and the place behind it. -/
def readInterpolation : Unstopped (Except TemplateError (TemplatePiece × Nat)) := do
  match ← bytesBefore? text (encode ['\x7d', '\x7d']) (place + 2) with
  | some (inside, next) =>
    return .ok (.interpolation (trimmed (TemplatePiece.spelled inside)), next)
  | none => return .error ⟨.unterminatedInterpolation, ← report text base place⟩

/-- Whether a tag, a comment or an interpolation may begin at a place in the text. -/
def beginsMarkup : Unstopped Bool := do
  let first ← byteAt text place
  match ← peek text (place + 1) with
  | some next => return TemplatePiece.beginsMarkup [first, next]
  | none => return false

/-- The next place where markup may begin, or the end of the text. -/
def textEnd : Unstopped Nat :=
  loop text (fun place => do
    if place < size text then
      if ← beginsMarkup text place then return .inr place else return .inl (place + 1)
    else return .inr place) place

/-- A text, which has one byte at least, and the place behind it. -/
def readText : Unstopped (TemplatePiece × Nat) := do
  let stop ← textEnd text (place + 1)
  return (.text (TemplatePiece.textContent (TemplatePiece.spelled (← slice text place stop))), stop)

/-- Whether the text goes on with the beginning of a comment. -/
def beginsComment (first : UInt8) : Unstopped Bool := do
  if first == charByte '<' then
    return (encode ['<', '!', '-', '-']).isPrefixOf (← sliceFrom text place)
  else return false

/-- The piece at a place in the text, and the place behind it. -/
def readPiece : Unstopped (Except TemplateError (TemplatePiece × Nat)) := do
  let first ← byteAt text place
  if ← beginsComment text place first then readComment text base place
  else
    let next ← peek text (place + 1)
    if first == charByte '<' && next = some (charByte '/') then readClosing text base place
    else if first == charByte '<' && next.any TemplatePiece.isLetter then
      readOpening text base place
    else if first == charByte '\x7b' && next = some (charByte '\x7b') then
      readInterpolation text base place
    else return .ok (← readText text place)

end Pieces

/-! ## Templates -/

/-- One round in a template: a piece, which goes into the forest. -/
def step (text : List Char) (base : Nat) :
    Nat × Nesting → Unstopped (Nat × Nesting ⊕ Except TemplateError (List TemplateNode))
  | (place, nesting) => do
    if place < size text then
      match ← readPiece text base place with
      | .ok (piece, next) =>
        match nesting.add piece with
        | .ok nesting => return .inl (next, nesting)
        | .error error => return .inr (.error error)
      | .error error => return .inr (.error error)
    else return .inr nesting.finish

/-- The forest of a template that has `base` bytes of the file before it. The numbers here have no
bound: `base` and the length of the template together are taken to fit the word size, as they do
where the template is a part of a file in memory. -/
def forest (base : Nat) (template : String) :
    Unstopped (Except TemplateError (List TemplateNode)) :=
  loop template.toList (step template.toList base) (0, Nesting.empty)

/-! ## Pieces in front of the cursor -/

/-- A piece and the place in front of what is left. -/
def placed (text : List Char) (found : TemplatePiece × List UInt8) : TemplatePiece × Nat :=
  (found.1, placeOf text found.2)

section PiecesRead

variable {text : List Char} {base : Nat} {rest : List UInt8}

theorem report_placeOf (base : Nat) (rest : List UInt8) :
    report text base (placeOf text rest) = .ok (base + placeOf text rest) :=
  if_pos (placeOf_le text rest)

theorem readName_placeOf (here : rest <:+ encode text) :
    readName text (placeOf text rest) =
      .ok (TemplatePiece.spelled (rest.takeWhile TemplatePiece.isTagByte),
        placeOf text (rest.dropWhile TemplatePiece.isTagByte)) := by
  rw [readName, pass_placeOf _ here, ok_bind, bytesBetween_pass _ here]
  rfl

theorem readComment_placeOf (here : encode ['<', '!', '-', '-'] ++ rest <:+ encode text) :
    readComment text base (placeOf text (encode ['<', '!', '-', '-'] ++ rest)) =
      .ok ((TemplatePiece.readComment
        (base + placeOf text (encode ['<', '!', '-', '-'] ++ rest)) rest).map (placed text)) := by
  have dash : charByte '-' :: rest <:+ encode text :=
    (List.suffix_append (encode ['<', '!', '-']) _).trans here
  have moved : placeOf text (encode ['<', '!', '-', '-'] ++ rest) + 4 = placeOf text rest :=
    (placeOf_append here).symm
  have start := (isCut_placeOf dash (by decide)).2
  have mark : encode ['-', '-', '>'] = charByte '-' :: encode ['-', '>'] := rfl
  rw [readComment, moved, bytesBefore?_placeOf mark (by decide) (tail_suffix dash) start, ok_bind,
    TemplatePiece.readComment]
  cases splitFirst? (encode ['-', '-', '>']) rest with
  | none => simp only [Option.map_none, report_placeOf, ok_bind, pure_eq_ok, Except.map]
  | some parts => rfl

theorem readInterpolation_placeOf (here : encode ['\x7b', '\x7b'] ++ rest <:+ encode text) :
    readInterpolation text base (placeOf text (encode ['\x7b', '\x7b'] ++ rest)) =
      .ok ((TemplatePiece.readInterpolation
        (base + placeOf text (encode ['\x7b', '\x7b'] ++ rest)) rest).map (placed text)) := by
  have brace : charByte '\x7b' :: rest <:+ encode text :=
    (List.suffix_append (encode ['\x7b']) _).trans here
  have moved : placeOf text (encode ['\x7b', '\x7b'] ++ rest) + 2 = placeOf text rest :=
    (placeOf_append here).symm
  have start := (isCut_placeOf brace (by decide)).2
  have mark : encode ['\x7d', '\x7d'] = charByte '\x7d' :: encode ['\x7d'] := rfl
  rw [readInterpolation, moved, bytesBefore?_placeOf mark (by decide) (tail_suffix brace) start,
    ok_bind, TemplatePiece.readInterpolation]
  cases splitFirst? (encode ['\x7d', '\x7d']) rest with
  | none => simp only [Option.map_none, report_placeOf, ok_bind, pure_eq_ok, Except.map]
  | some parts => rfl

theorem readClosing_placeOf (here : charByte '<' :: charByte '/' :: rest <:+ encode text) :
    readClosing text base (placeOf text (charByte '<' :: charByte '/' :: rest)) =
      .ok ((TemplatePiece.readClosing
        (base + placeOf text (charByte '<' :: charByte '/' :: rest)) rest).map (placed text)) := by
  have inside : rest <:+ encode text := tail_suffix (tail_suffix here)
  have moved : placeOf text rest = placeOf text (charByte '<' :: charByte '/' :: rest) + 2 :=
    @placeOf_append text rest [charByte '<', charByte '/'] here
  have behind := dropWhile_suffix TemplatePiece.isTagByte inside
  have solid := dropWhile_suffix isBlankByte behind
  have farther := placeOf_of_suffix inside ((List.dropWhile_suffix isBlankByte).trans
    (List.dropWhile_suffix TemplatePiece.isTagByte))
  simp only [readClosing, TemplatePiece.readClosing, ← moved, readName_placeOf inside, ok_bind,
    pass_placeOf _ behind, peek_placeOf solid]
  generalize (rest.dropWhile TemplatePiece.isTagByte).dropWhile isBlankByte = left at solid farther
  have place_eq : base + placeOf text (charByte '<' :: charByte '/' :: rest) + 2 +
      (rest.length - left.length) = base + placeOf text left := by
    omega
  cases left with
  | nil => simp [report_placeOf, Except.map, ← place_eq]
  | cons b left =>
      simp only [place_eq, List.head?_cons, Option.some.injEq, beq_iff_eq]
      split
      · simp only [report_placeOf, ← placeOf_cons solid, ok_bind, pure_eq_ok, Except.map, placed,
          Nat.add_assoc]
      · simp only [report_placeOf, ok_bind, pure_eq_ok, Except.map]

theorem readOpening_placeOf (here : charByte '<' :: rest <:+ encode text) :
    readOpening text base (placeOf text (charByte '<' :: rest)) =
      .ok ((TemplatePiece.readOpening
        (base + placeOf text (charByte '<' :: rest)) rest).map (placed text)) := by
  have inside := tail_suffix here
  have behind := dropWhile_suffix TemplatePiece.isTagByte inside
  simp only [readOpening, TemplatePiece.readOpening, ← placeOf_cons here, readName_placeOf inside,
    ok_bind, tagRest?_placeOf behind, tagEnd]
  cases found : TemplatePiece.tagRest? (rest.dropWhile TemplatePiece.isTagByte) with
  | none => simp only [Option.map_none, report_placeOf, ok_bind, pure_eq_ok, Except.map]
  | some more =>
      have farther := placeOf_of_suffix inside (((List.suffix_cons _ _).trans
        (TemplatePiece.suffix_of_tagRest? found)).trans (List.dropWhile_suffix _))
      have moved := placeOf_cons here
      have place_eq : base + placeOf text (charByte '<' :: rest) + 1 +
          (rest.length - more.behind.length) = base + placeOf text more.behind := by
        omega
      simp only [Option.map_some, report_placeOf, ok_bind, pure_eq_ok, Except.map, placed, place_eq,
        List.nil_append]

/-! ### Texts -/

theorem beginsMarkup_placeOf {b : UInt8} (here : b :: rest <:+ encode text) :
    beginsMarkup text (placeOf text (b :: rest)) = .ok (TemplatePiece.beginsMarkup (b :: rest)) := by
  rw [beginsMarkup, byteAt_placeOf here, ok_bind, ← placeOf_cons here,
    peek_placeOf (tail_suffix here)]
  cases rest <;> rfl

theorem lt_of_beginsMarkup {b : UInt8} (begins : TemplatePiece.beginsMarkup (b :: rest)) :
    b < 0x80 := by
  cases rest with
  | nil => cases begins
  | cons next rest =>
      simp only [TemplatePiece.beginsMarkup, Bool.or_eq_true, Bool.and_eq_true, beq_iff_eq] at begins
      rcases begins with ⟨rfl, -⟩ | ⟨rfl, -⟩ <;> decide

/-- A text ends where markup begins, which is never inside a character, or with the template. -/
theorem isCut_textRun (here : rest <:+ encode text) :
    IsCut text (placeOf text (rest.drop (TemplatePiece.textRun rest).length)) := by
  induction rest with
  | nil => exact isCut_size text
  | cons b rest induction =>
      rw [TemplatePiece.textRun]
      split
      · rename_i begins
        exact (isCut_placeOf here (lt_of_beginsMarkup begins)).1
      · exact induction (tail_suffix here)

theorem textRun_append_drop (bytes : List UInt8) :
    TemplatePiece.textRun bytes ++ bytes.drop (TemplatePiece.textRun bytes).length = bytes := by
  induction bytes with
  | nil => rfl
  | cons b bytes induction =>
      rw [TemplatePiece.textRun]
      split
      · rfl
      · exact congrArg (b :: ·) induction

theorem textEnd_placeOf (here : rest <:+ encode text) :
    textEnd text (placeOf text rest) =
      .ok (placeOf text (rest.drop (TemplatePiece.textRun rest).length)) := by
  refine @loop_eq Nat Unit Nat _ (fun rest _ => placeOf text rest)
    (fun rest _ => placeOf text (rest.drop (TemplatePiece.textRun rest).length))
    (· <:+ encode text) text ?_ rest () here here
  intro rest _ here
  have lt_iff := placeOf_lt_iff here
  rw [Progress]
  cases rest with
  | nil => exact .inl (if_neg (by simp [lt_iff]))
  | cons b rest =>
      rw [if_pos (by simp [lt_iff]), beginsMarkup_placeOf here, ok_bind, TemplatePiece.textRun]
      split
      · exact .inl rfl
      · exact .inr ⟨rest, (), by rw [placeOf_cons here]; rfl, tail_suffix here,
          Nat.lt_succ_self _, rfl⟩

theorem readText_placeOf {b : UInt8} (here : b :: rest <:+ encode text)
    (start : IsCut text (placeOf text (b :: rest))) :
    readText text (placeOf text (b :: rest)) = .ok (placed text (TemplatePiece.readText b rest)) := by
  have inside := tail_suffix here
  have split : b :: TemplatePiece.textRun rest ++ rest.drop (TemplatePiece.textRun rest).length =
      b :: rest := congrArg (b :: ·) (textRun_append_drop rest)
  have sliced := @slice_placeOf text (rest.drop (TemplatePiece.textRun rest).length)
    (b :: TemplatePiece.textRun rest) (by rwa [split]) (by rwa [split]) (isCut_textRun inside)
  rw [split] at sliced
  rw [readText, ← placeOf_cons here, textEnd_placeOf inside, ok_bind, sliced]
  rfl

/-! ## Templates in front of the cursor -/

theorem beginsComment_placeOf {b : UInt8} (here : b :: rest <:+ encode text)
    (start : IsCut text (placeOf text (b :: rest))) :
    beginsComment text (placeOf text (b :: rest)) b =
      .ok ((encode ['<', '!', '-', '-']).isPrefixOf (b :: rest)) := by
  rw [beginsComment]
  split
  · rw [sliceFrom_placeOf here start]
    rfl
  · rename_i other
    have different : charByte '<' ≠ b := fun same => other (same ▸ beq_self_eq_true _)
    refine congrArg Except.ok (Eq.symm ?_)
    have mark : encode ['<', '!', '-', '-'] = charByte '<' :: encode ['!', '-', '-'] := rfl
    rw [mark, List.isPrefixOf_cons_cons, beq_eq_false_iff_ne.mpr different, Bool.false_and]

/-- The piece in front of the cursor is read. -/
theorem readPiece_placeOf {b : UInt8} (here : b :: rest <:+ encode text)
    (start : IsCut text (placeOf text (b :: rest))) :
    readPiece text base (placeOf text (b :: rest)) =
      .ok ((TemplatePiece.read (base + placeOf text (b :: rest)) b rest).map (placed text)) := by
  have inside := tail_suffix here
  rw [readPiece, byteAt_placeOf here, ok_bind, beginsComment_placeOf here start, ok_bind,
    TemplatePiece.read]
  split
  · rename_i comment
    obtain ⟨body, split⟩ := List.isPrefixOf_iff_prefix.mp comment
    obtain ⟨rfl, rfl⟩ : charByte '<' = b ∧ encode ['!', '-', '-'] ++ body = rest :=
      List.cons.inj split
    exact readComment_placeOf here
  · rw [← placeOf_cons here, peek_placeOf inside, ok_bind]
    split
    · rename_i closing
      simp only [Bool.and_eq_true, beq_iff_eq, decide_eq_true_eq] at closing
      obtain ⟨rfl, head⟩ := closing
      obtain ⟨rest, rfl⟩ := List.head?_eq_some_iff.mp head
      exact readClosing_placeOf here
    · split
      · rename_i opening
        simp only [Bool.and_eq_true, beq_iff_eq] at opening
        obtain ⟨rfl, -⟩ := opening
        exact readOpening_placeOf here
      · split
        · rename_i braces
          simp only [Bool.and_eq_true, beq_iff_eq, decide_eq_true_eq] at braces
          obtain ⟨rfl, head⟩ := braces
          obtain ⟨rest, rfl⟩ := List.head?_eq_some_iff.mp head
          exact readInterpolation_placeOf here
        · rw [readText_placeOf here start]
          rfl

/-! ### Ends of pieces -/

section Ends

variable {offset : Nat} {bytes behind mark body : List UInt8} {piece : TemplatePiece} {last : UInt8}

/-- What is behind the first place of a mark has the last byte of the mark in front of it. -/
theorem suffix_of_mark (found : splitFirst? (mark ++ [last]) bytes = some (body, behind)) :
    last :: behind <:+ bytes :=
  ⟨body ++ mark, by rw [eq_of_splitFirst? found]; simp⟩

theorem suffix_of_readComment
    (found : TemplatePiece.readComment offset bytes = .ok (piece, behind)) :
    charByte '>' :: behind <:+ bytes := by
  rw [TemplatePiece.readComment] at found
  split at found
  · rename_i body after splits
    cases found
    exact @suffix_of_mark _ _ (encode ['-', '-']) _ _ splits
  · cases found

theorem suffix_of_readInterpolation
    (found : TemplatePiece.readInterpolation offset bytes = .ok (piece, behind)) :
    charByte '\x7d' :: behind <:+ bytes := by
  rw [TemplatePiece.readInterpolation] at found
  split at found
  · rename_i body after splits
    cases found
    exact @suffix_of_mark _ _ (encode ['\x7d']) _ _ splits
  · cases found

theorem suffix_of_readClosing
    (found : TemplatePiece.readClosing offset bytes = .ok (piece, behind)) :
    charByte '>' :: behind <:+ bytes := by
  simp only [TemplatePiece.readClosing] at found
  split at found
  · rename_i last after starts
    split at found
    · rename_i bracket
      cases found
      obtain rfl := eq_of_beq bracket
      exact (TemplatePiece.cons_suffix_of_dropWhile starts).trans (List.dropWhile_suffix _)
    · cases found
  · cases found

theorem suffix_of_readOpening
    (found : TemplatePiece.readOpening offset bytes = .ok (piece, behind)) :
    charByte '>' :: behind <:+ bytes := by
  rw [TemplatePiece.readOpening] at found
  split at found
  · rename_i more more_eq
    cases found
    exact (TemplatePiece.suffix_of_tagRest? more_eq).trans (List.dropWhile_suffix _)
  · cases found

end Ends

/-- Behind a piece the cursor is between characters again. -/
theorem isCut_of_read {offset : Nat} {b : UInt8} {behind : List UInt8} {piece : TemplatePiece}
    (here : b :: rest <:+ encode text)
    (found : TemplatePiece.read offset b rest = .ok (piece, behind)) :
    IsCut text (placeOf text behind) := by
  have inside := tail_suffix here
  have ends {last : UInt8} {front : List UInt8} (ascii : last < 0x80) (part : front <:+ rest)
      (suffix : last :: behind <:+ front) : IsCut text (placeOf text behind) :=
    (isCut_placeOf ((suffix.trans part).trans inside) ascii).2
  rw [TemplatePiece.read] at found
  split at found
  · exact ends (by decide) (List.drop_suffix 3 rest) (suffix_of_readComment found)
  · split at found
    · exact ends (by decide) (List.drop_suffix 1 rest) (suffix_of_readClosing found)
    · split at found
      · exact ends (by decide) (List.suffix_refl rest) (suffix_of_readOpening found)
      · split at found
        · exact ends (by decide) (List.drop_suffix 1 rest) (suffix_of_readInterpolation found)
        · cases found
          exact isCut_textRun inside

/-- What is behind a piece is in the template. -/
theorem suffix_of_read {offset : Nat} {b : UInt8} {behind : List UInt8} {piece : TemplatePiece}
    (found : TemplatePiece.read offset b rest = .ok (piece, behind)) : behind <:+ rest := by
  obtain ⟨written, split, -⟩ := TemplatePiece.spells_of_read found
  have shorter := TemplatePiece.length_of_read found
  cases written with
  | nil =>
      rw [← List.nil_append behind, ← split, List.length_cons] at shorter
      exact absurd shorter (Nat.not_succ_le_self _)
  | cons first written => exact ⟨written, (List.cons.inj split).2.symm⟩

/-- A round in a template makes progress from one place between characters to another. -/
theorem step_progress (here : rest <:+ encode text) (start : IsCut text (placeOf text rest))
    (nesting : Nesting) :
    Progress (fun rest nesting => (placeOf text rest, nesting))
      (fun rest nesting => nesting.forest (base + placeOf text rest) rest)
      (fun rest => rest <:+ encode text ∧ IsCut text (placeOf text rest)) rest nesting
      (step text base (placeOf text rest, nesting)) := by
  have lt_iff := placeOf_lt_iff here
  cases rest with
  | nil =>
      rw [Progress, Nesting.forest_nil]
      exact .inl (if_neg (by simp [lt_iff]))
  | cons b rest =>
      have moved := placeOf_cons here
      rw [Progress, step, if_pos (by simp [lt_iff]), readPiece_placeOf here start, ok_bind,
        Nesting.forest_cons]
      cases found : TemplatePiece.read (base + placeOf text (b :: rest)) b rest with
      | error error => exact .inl rfl
      | ok parts =>
          obtain ⟨piece, behind⟩ := parts
          have inside := suffix_of_read found
          have farther := placeOf_of_suffix (tail_suffix here) inside
          have place_eq : base + placeOf text (b :: rest) + 1 + (rest.length - behind.length) =
              base + placeOf text behind := by
            omega
          simp only [Except.map, placed, place_eq]
          cases added : nesting.add piece with
          | error error => exact .inl rfl
          | ok next =>
              exact .inr ⟨behind, next, rfl,
                ⟨inside.trans (tail_suffix here), isCut_of_read here found⟩,
                Nat.lt_succ_of_le inside.length_le, rfl⟩

/-- No step is stopped in reading a template, and the forest is that of the template. -/
theorem forest_eq (base : Nat) (template : String) :
    forest base template = .ok (TemplateNode.forest base template) := by
  let text := template.toList
  have start := placeOf_encode text
  have cut : IsCut text (placeOf text (encode text)) := start ▸ isCut_zero text
  have read := @loop_eq _ _ _ (step text base) _ _ _ text
    (fun _ nesting here => step_progress here.1 here.2 nesting) (encode text) Nesting.empty
    ⟨List.suffix_refl _, cut⟩ (List.suffix_refl _)
  rwa [start] at read

end PiecesRead

end Cursor

end IslandSlots
