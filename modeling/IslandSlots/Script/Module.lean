import IslandSlots.Script.Statement

/-!
# Modules

A whole source as the statements of a module. Parts that stand inside one another are read by
readers that may nest only so deep; since a part inside another takes a token of its own, the
length of the source bounds the depth that any module needs.
-/

namespace IslandSlots.Script

namespace Nested

/-- The readers of parts that nest at most `depth` times. -/
def upTo : Nat → Nested
  | 0 =>
    { assignment := fun _ => Reader.fail
      operators := fun _ _ => Reader.fail
      operand := fun _ => Reader.fail
      constructed := fun _ => Reader.fail
      pattern := fun _ => Reader.fail
      statement := fun _ => Reader.fail }
  | depth + 1 =>
    { assignment := fun mode state => Reader.assignment (upTo depth) mode state
      operators := fun mode level state => Reader.operators (upTo depth) mode level state
      operand := fun mode state => Reader.operand (upTo depth) mode state
      constructed := fun mode state => Reader.constructed (upTo depth) mode state
      pattern := fun mode state => Reader.bindingPattern (upTo depth) mode state
      statement := fun mode state => Reader.statement (upTo depth) mode state }

end Nested

/-- The statements up to the end of the source. -/
def moduleStatements (nested : Nested) : Reader (List Statement) :=
  Reader.repeatPart (fun found => do
    if (← Reader.token).isFinish then return .inr found.reverse
    else return .inl ((← nested.statement Mode.top) :: found)) []

/-- A source after the line that names an interpreter, if it begins with one, and the bytes of
that line. -/
def skipInterpreterLine (source : List Char) : Nat × List Char :=
  match source with
  | '#' :: '!' :: _ =>
    let line := source.takeWhile (!isLineEnd ·)
    (Text.byteLength line, source.drop line.length)
  | _ => (0, source)

/-- The statements of a module. -/
def parseModule (source : String) : Except SyntaxError (List Statement) := do
  let (offset, chars) := skipInterpreterLine source.toList
  let first ← Token.next offset chars
  let rounds := chars.length + 2
  let state : ReaderState := ⟨first, 0, none, [], rounds⟩
  let (statements, state) ← (moduleStatements (Nested.upTo (8 * rounds))).run state
  match state.fault <|> state.loose.getLast? with
  | some offset => throw ⟨offset⟩
  | none => return statements

end IslandSlots.Script
