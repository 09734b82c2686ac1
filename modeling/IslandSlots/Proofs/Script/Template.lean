import IslandSlots.Proofs.Outcome
import IslandSlots.Script.Expression

/-!
# Text in template literals

How text is written as a template literal without holes: a backslash goes in front of each
backtick, dollar sign and backslash. The literal that is read from it has these backslashes in its
text, and a line feed at every end of a line.
-/

namespace IslandSlots.Script

namespace Template

/-- Whether a character is written with a backslash in front of it. -/
def isMarked (c : Char) : Bool :=
  c == '\x60' || c == '$' || c == '\\'

/-- Text as it is written between backticks. -/
def escaped : List Char → List Char
  | [] => []
  | c :: rest => if isMarked c then '\\' :: c :: escaped rest else c :: escaped rest

/-- The text of the literal that is written for a text. -/
def raw (content : List Char) : List Char :=
  normalizeLines (escaped content)

theorem ne_of_isMarked {c : Char} (marked : isMarked c) : c ≠ '\r' ∧ c ≠ '\n' := by
  constructor <;> rintro rfl <;> cases marked

theorem raw_marked {c : Char} (marked : isMarked c) (rest : List Char) :
    raw (c :: rest) = '\\' :: c :: raw rest := by
  obtain ⟨no_return, -⟩ := ne_of_isMarked marked
  rw [raw, escaped, if_pos marked, normalizeLines.eq_3 _ _ (fun _ slash _ => by cases slash),
    normalizeLines.eq_3 _ _ (fun _ carriage _ => no_return carriage), if_neg (by decide),
    if_neg no_return, raw]

theorem raw_plain {c : Char} (plain : isMarked c = false) (no_return : c ≠ '\r')
    (rest : List Char) : raw (c :: rest) = c :: raw rest := by
  rw [raw, escaped, if_neg (by simp [plain]),
    normalizeLines.eq_3 _ _ (fun _ carriage _ => no_return carriage), if_neg no_return, raw]

theorem raw_carriageReturn {rest : List Char} (alone : rest.head? ≠ some '\n') :
    raw ('\r' :: rest) = '\n' :: raw rest := by
  have behind : ∀ more, escaped rest ≠ '\n' :: more := by
    intro more split
    cases rest with
    | nil => cases split
    | cons c rest =>
        rw [escaped] at split
        split at split
        · cases split
        · exact alone (congrArg some (List.cons.inj split).1)
  rw [raw, escaped, if_neg (by decide),
    normalizeLines.eq_3 _ _ (fun more _ split => behind more split), if_pos rfl, raw]

/-- The backtick behind the text is the first one that ends the literal. -/
theorem templatePiece?_escaped (content rest : List Char) :
    templatePiece? (escaped content ++ '\x60' :: rest) = some ⟨escaped content, true⟩ := by
  induction content with
  | nil => rfl
  | cons c content induction =>
      rw [escaped]
      split
      · rw [List.cons_append, List.cons_append, templatePiece?, induction]
        rfl
      · rename_i plain
        simp only [isMarked, Bool.or_eq_true, beq_iff_eq, not_or] at plain
        obtain ⟨⟨no_tick, no_dollar⟩, no_slash⟩ := plain
        rw [List.cons_append, templatePiece?.eq_3 _ _ (fun _ _ slash _ => no_slash slash),
          if_neg no_tick, if_neg (by simp [no_dollar]), induction]
        rfl

/-- Every backslash in the text stands in front of a character that stands for itself. -/
theorem escapesValued_escaped (content : List Char) : escapesValued (escaped content) := by
  induction content with
  | nil => rfl
  | cons c content induction =>
      rw [escaped]
      split
      · rename_i marked
        simp only [isMarked, Bool.or_eq_true, beq_iff_eq] at marked
        rcases marked with (rfl | rfl) | rfl <;> simpa [escapesValued] using induction
      · rename_i plain
        simp only [isMarked, Bool.or_eq_true, beq_iff_eq, not_or] at plain
        rwa [escapesValued.eq_4 _ _ plain.2]

end Template

/-- The token of a text that is written as a template literal. -/
theorem Token.at?_template (content rest : List Char) (start : Nat) (newline : Bool) :
    Token.at? start newline ('\x60' :: Template.escaped content ++ '\x60' :: rest) =
      .ok ⟨.template (String.ofList (Template.raw content)) true true, start,
        start + Text.byteLength ('\x60' :: Template.escaped content ++ ['\x60']), newline,
        '\x60' :: Template.escaped content ++ '\x60' :: rest, rest⟩ := by
  have begins : beginsName ('\x60' :: (Template.escaped content ++ '\x60' :: rest)) = false := by
    rw [beginsName, if_neg (by decide)]
    decide +kernel
  have piece : Token.templateAt start newline
      ('\x60' :: (Template.escaped content ++ '\x60' :: rest)) =
        .ok (.taking (.template (String.ofList (Template.raw content)) true true)
          ((Template.escaped content).length + 2) start newline
          ('\x60' :: (Template.escaped content ++ '\x60' :: rest))) := by
    rw [Token.templateAt, List.drop_succ_cons, List.drop_zero,
      Template.templatePiece?_escaped]
    simp only [Template.escapesValued_escaped, if_true]
    rfl
  have taken : ('\x60' :: (Template.escaped content ++ '\x60' :: rest)).take
      ((Template.escaped content).length + 2) = '\x60' :: Template.escaped content ++ ['\x60'] := by
    simp [List.take_append, List.take_of_length_le]
  have left : ('\x60' :: (Template.escaped content ++ '\x60' :: rest)).drop
      ((Template.escaped content).length + 2) = rest := by
    simp [List.drop_append]
  rw [List.cons_append, Token.at?, if_neg (by simp [begins]), if_neg (by simp),
    if_neg (by decide), if_pos rfl, piece, Token.taking, taken, left]

namespace Reader

theorem bind_apply_eq_ok {α β : Type} {reader : Reader α} {next : α → Reader β}
    {state after : ReaderState} {value : β} :
    (reader >>= next) state = .ok (value, after) ↔
      ∃ found middle, reader state = .ok (found, middle) ∧
        next found middle = .ok (value, after) := by
  have split : (reader >>= next) state = reader state >>= fun (found, middle) =>
      next found middle := rfl
  rw [split, bind_eq_ok]
  exact Prod.exists

theorem pure_apply_eq_ok {α : Type} {found value : α} {state after : ReaderState} :
    (pure found : Reader α) state = .ok (value, after) ↔ found = value ∧ state = after := by
  rw [show (pure found : Reader α) state = .ok (found, state) from rfl, Except.ok.injEq,
    Prod.mk.injEq]

/-- A part that gives a result is not repeated. -/
theorem repeatPart_eq_ok {α β : Type} {part : α → Reader (α ⊕ β)} {value : α} {result found : β}
    {state after : ReaderState}
    (ends : ∀ next middle, part value state = .ok (next, middle) → next = .inr result)
    (read : repeatPart part value state = .ok (found, after)) : found = result := by
  obtain ⟨here, same, state_eq, repeated⟩ := bind_apply_eq_ok.mp read
  cases state_eq
  cases rounds_eq : state.rounds with
  | zero =>
      rw [rounds_eq] at repeated
      cases repeated
  | succ rounds =>
      rw [rounds_eq] at repeated
      obtain ⟨next, middle, step, rest⟩ := bind_apply_eq_ok.mp repeated
      rw [ends next middle step] at rest
      exact (pure_apply_eq_ok.mp rest).1.symm

/-- A template literal without holes is read as one text. -/
theorem primary_template {nested : Nested} {mode : Mode} {state after : ReaderState}
    {literal : Expr} {text : String} (kind_eq : state.token.kind = .template text true true)
    (read : primary nested mode state = .ok (literal, after)) :
    ∃ place, literal = .template place [text] [] := by
  obtain ⟨first, middle, first_eq, read⟩ := bind_apply_eq_ok.mp read
  cases first_eq
  rw [kind_eq] at read
  obtain ⟨parts, middle, parts_eq, read⟩ := bind_apply_eq_ok.mp read
  have parts_found : parts = ([text], []) := by
    refine repeatPart_eq_ok (fun next middle step => ?_) parts_eq
    obtain ⟨piece, same, piece_eq, step⟩ := bind_apply_eq_ok.mp step
    cases piece_eq
    rw [kind_eq] at step
    obtain ⟨taken, later, -, step⟩ := bind_apply_eq_ok.mp step
    exact (pure_apply_eq_ok.mp step).1.symm
  subst parts_found
  obtain ⟨place, last, -, read⟩ := bind_apply_eq_ok.mp read
  exact ⟨place, (pure_apply_eq_ok.mp read).1.symm⟩

end Reader

end IslandSlots.Script
