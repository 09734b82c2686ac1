import IslandSlots.Script.Syntax
import IslandSlots.Script.Token

/-!
# Reading a script

A reader goes through the tokens of a source one at a time. It stops at the first token that
cannot go on; some faults let it go on, and then the first of them is what is wrong with the
source.
-/

namespace IslandSlots.Script

/-- Where a reader stands. -/
structure ReaderState where
  /-- The next token. -/
  token : Token
  /-- Bytes up to the end of the token before. -/
  stop : Nat
  /-- The place of the first fault that let the reader go on. -/
  fault : Option Nat
  /-- The places of initial values in object literals that no pattern has taken up. -/
  loose : List Nat
  /-- A bound on how often a part can be repeated. -/
  rounds : Nat

/-- What reads a part of a script. -/
abbrev Reader (α : Type) : Type := StateT ReaderState (Except SyntaxError) α

/-- What the words `in`, `await` and `yield` mean in a part of a script. -/
structure Mode where
  /-- Whether `in` is an operator. -/
  allowIn : Bool
  /-- Whether `await` is an operator. -/
  await : Bool
  /-- Whether `yield` is an operator. -/
  yield : Bool

namespace Mode

/-- The mode of the top level. -/
def top : Mode := ⟨true, true, false⟩

/-- The mode inside brackets. -/
def inside (mode : Mode) : Mode := { mode with allowIn := true }

/-- The mode in the head of a loop. -/
def inHead (mode : Mode) : Mode := { mode with allowIn := false }

end Mode

namespace Reader

/-- The next token. -/
def token : Reader Token := ReaderState.token <$> get

/-- Stops at a place. -/
def failAt {α : Type} (offset : Nat) : Reader α := do
  throw ⟨(← get).fault.getD offset⟩

/-- Stops at the next token. -/
def fail {α : Type} : Reader α := do
  failAt (← token).start

/-- Goes on after a fault. -/
def complain (offset : Nat) : Reader Unit :=
  modify fun state => { state with fault := state.fault <|> some offset }

/-- Replaces the next token by another reading of it. -/
def retoken (token : Token) : Reader Unit :=
  modify fun state => { state with token }

/-- Takes the next token. -/
def advance : Reader Token := do
  let token ← token
  let following ← token.following
  modify fun state => { state with token := following, stop := token.stop }
  return token

/-- Whether the next token is the given punctuator. -/
def atPunctuator (text : String) : Reader Bool :=
  return (← token).isPunctuator text

/-- Whether the next token is the given word. -/
def atWord (word : String) : Reader Bool :=
  return (← token).isWord word

/-- Takes the next token if it is the given punctuator. -/
def eat (text : String) : Reader Bool := do
  if ← atPunctuator text then
    discard advance
    return true
  else return false

/-- Takes the next token if it is the given word. -/
def eatWord (word : String) : Reader Bool := do
  if ← atWord word then
    discard advance
    return true
  else return false

/-- Takes the given punctuator. -/
def expect (text : String) : Reader Unit := do
  unless ← eat text do fail

/-- Takes the given word. -/
def expectWord (word : String) : Reader Unit := do
  unless ← eatWord word do fail

/-- The token after the next one. -/
def peek : Reader Token := do
  (← token).following

/-- What a reader reads, or nothing taken when it fails. -/
def attempt {α : Type} (reader : Reader (Option α)) : Reader (Option α) := fun state =>
  match reader state with
  | .ok (some found, after) => .ok (some found, after)
  | _ => .ok (none, state)

/-- Repeats a part until it gives a result, at most the given number of times. -/
def repeatUpTo {α β : Type} (part : α → Reader (α ⊕ β)) : Nat → α → Reader β
  | 0, _ => fail
  | rounds + 1, value => do
    match ← part value with
    | .inl next => repeatUpTo part rounds next
    | .inr result => return result

/-- Repeats a part until it gives a result. -/
def repeatPart {α β : Type} (part : α → Reader (α ⊕ β)) (value : α) : Reader β := do
  repeatUpTo part (← get).rounds value

/-- The parts up to a closing punctuator, which is taken. -/
def manyUntil {α : Type} (close : String) (part : Reader α) : Reader (List α) :=
  repeatPart (fun found => do
    if ← eat close then return .inr found.reverse
    else return .inl ((← part) :: found)) []

/-- The parts between commas up to a closing punctuator, which is taken. A last comma is allowed. -/
def commaUntil {α : Type} (close : String) (part : Reader α) : Reader (List α) :=
  repeatPart (fun found => do
    if ← eat close then return .inr found.reverse
    else
      let next ← part
      if ← eat "," then return .inl (next :: found)
      else
        expect close
        return .inr (next :: found).reverse) []

/-- The stretch from a token to the end of the last token taken. -/
def extentFrom (first : Token) : Reader Extent := do
  let stop := (← get).stop
  return ⟨first.start, String.ofList (Text.takeBytes (stop - first.start) first.source)⟩

/-- Ends a statement: at a semicolon, which is taken, or where one may be left out. -/
def endStatement : Reader Unit := do
  if ← eat ";" then return
  let token ← token
  unless token.newline || token.isPunctuator "\x7d" || token.isFinish do
    failAt (← get).stop

end Reader

/-- The words that no variable can have for a name. -/
def reservedWords : List String :=
  ["break", "case", "catch", "class", "const", "continue", "debugger", "default", "delete", "do",
    "else", "enum", "export", "extends", "false", "finally", "for", "function", "if", "import", "in",
    "instanceof", "new", "null", "return", "super", "switch", "this", "throw", "true", "try",
    "typeof", "var", "void", "while", "with"]

/-- The name that a token can give to a variable. -/
def Token.binding? (token : Token) : Option String :=
  match token.kind with
  | .name value plain => if plain && reservedWords.contains value then none else some value
  | _ => none

/-- The name that a token gives to a property. -/
def Token.name? (token : Token) : Option String :=
  match token.kind with
  | .name value _ => some value
  | _ => none

/-- The readers of the parts of a script that can stand inside one another. -/
structure Nested where
  /-- An expression without commas. -/
  assignment : Mode → Reader Expr
  /-- An expression of operators that bind tighter than the given strength. -/
  operators : Mode → Nat → Reader Expr
  /-- An operand with the operators before and after it. -/
  operand : Mode → Reader Expr
  /-- What `new` makes an object of. -/
  constructed : Mode → Reader Expr
  /-- A pattern of variables. -/
  pattern : Mode → Reader Unit
  /-- A statement. -/
  statement : Mode → Reader Statement

end IslandSlots.Script
