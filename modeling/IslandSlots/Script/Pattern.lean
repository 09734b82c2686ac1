import IslandSlots.Script.Reader

/-!
# Patterns, parameters and bodies of functions

The binding side of a script: what declares variables, and the functions whose parameters do.
-/

namespace IslandSlots.Script.Reader

/-- Several expressions joined by commas, or one. -/
def sequence (nested : Nested) (mode : Mode) : Reader Expr := do
  let first ← token
  let value ← nested.assignment mode
  if ← atPunctuator "," then
    let parts ← repeatPart (fun found => do
      if ← eat "," then return .inl ((← nested.assignment mode) :: found)
      else return .inr found.reverse) [value]
    return .sequence (← extentFrom first) parts
  else return value

/-- An initial value, if there is one. -/
def initial? (nested : Nested) (mode : Mode) : Reader (Option Expr) := do
  if ← eat "=" then return some (← nested.assignment mode) else return none

/-- A variable. -/
def variableName : Reader String := do
  match (← token).binding? with
  | some name =>
    discard advance
    return name
  | none => fail

/-- The key of a property. -/
structure PropertyKey where
  /-- The source of the key without brackets. -/
  place : Extent
  /-- The value of a key that is a name or a string and not computed. -/
  label : Option String
  /-- The variable that the key names when the property is written in short. -/
  short : Option String

/-- A key of a property or method. -/
def propertyKey (nested : Nested) (mode : Mode) : Reader PropertyKey := do
  let first ← token
  if ← eat "[" then
    let value ← nested.assignment mode.inside
    expect "]"
    return ⟨value.extent, none, none⟩
  else
    let label ← match first.kind with
      | .name value _ => pure (some value)
      | .string value => pure (some value)
      | .number => pure none
      | .privateName => pure none
      | _ => fail
    discard advance
    return ⟨← extentFrom first, label, first.binding?⟩

/-- A pattern with an initial value that is taken when there is none to match. -/
def patternWithDefault (nested : Nested) (mode : Mode) : Reader Unit := do
  nested.pattern mode
  discard (initial? nested mode.inside)

/-- The pattern for what is left, after its dots, given the first of them. Nothing follows it. -/
def restPattern (nested : Nested) (mode : Mode) (first : Token) : Reader Unit := do
  nested.pattern mode
  if ← atPunctuator "," then failAt first.start

/-- An item of an array pattern. -/
def patternItem (nested : Nested) (mode : Mode) : Reader Unit := do
  let first ← token
  if ← atPunctuator "," then return
  else if ← eat "..." then restPattern nested mode first
  else patternWithDefault nested mode

/-- A member of an object pattern. -/
def patternMember (nested : Nested) (mode : Mode) : Reader Unit := do
  let first ← token
  if ← eat "..." then restPattern nested mode first
  else
    let key ← propertyKey nested mode
    if ← eat ":" then patternWithDefault nested mode
    else if key.short.isSome then discard (initial? nested mode.inside)
    else fail

/-- A pattern of variables. -/
def bindingPattern (nested : Nested) (mode : Mode) : Reader Unit := do
  if ← eat "[" then discard (commaUntil "]" (patternItem nested mode))
  else if ← eat "\x7b" then discard (commaUntil "\x7d" (patternMember nested mode))
  else discard variableName

/-- The parameters of a function after the opening parenthesis. -/
def parametersUntilClose (nested : Nested) (mode : Mode) : Reader Parameters :=
  repeatPart (fun (patterns : List String) => do
    let first ← token
    if ← eat ")" then return .inr ⟨patterns.reverse, none⟩
    else if ← eat "..." then
      restPattern nested mode first
      let rest ← extentFrom first
      expect ")"
      return .inr ⟨patterns.reverse, some rest.text⟩
    else
      nested.pattern mode
      let pattern ← extentFrom first
      discard (initial? nested mode.inside)
      if ← eat "," then return .inl (pattern.text :: patterns)
      else
        expect ")"
        return .inr ⟨(pattern.text :: patterns).reverse, none⟩) []

/-- The parameters of a function in parentheses. -/
def parameters (nested : Nested) (mode : Mode) : Reader Parameters := do
  expect "("
  parametersUntilClose nested mode

/-- Statements in braces. -/
def blockStatements (nested : Nested) (mode : Mode) : Reader (List Statement) := do
  expect "\x7b"
  manyUntil "\x7d" (nested.statement mode.inside)

/-- The parameters and the body of a function. -/
def functionRest (nested : Nested) (async generator : Bool) :
    Reader (Parameters × List Statement) := do
  let mode : Mode := ⟨true, async, generator⟩
  let found ← parameters nested mode
  return (found, ← blockStatements nested mode)

/-- A method from its parameters on. -/
def method (nested : Nested) (async generator : Bool) : Reader Expr := do
  let first ← token
  let (found, statements) ← functionRest nested async generator
  return .function (← extentFrom first) found (.block statements)

/-- Takes an arrow if one is next. It has to be on the line of the parameters. -/
def eatArrow : Reader Bool := do
  let arrow ← token
  if ← eat "=>" then
    if arrow.newline then complain arrow.start
    return true
  else return false

/-- The parameters of an arrow function, up to and with the arrow. -/
def arrowHead? (nested : Nested) (mode : Mode) : Reader (Option Parameters) := do
  let found ← parameters nested mode
  if ← eatArrow then return some found else return none

/-- An arrow function whose first token and parameters are given, from its body on. -/
def arrowRest (nested : Nested) (mode : Mode) (async : Bool) (first : Token)
    (found : Parameters) : Reader Expr := do
  let body ← if ← atPunctuator "\x7b" then
      Body.block <$> blockStatements nested ⟨true, async, false⟩
    else Body.expression <$> nested.assignment ⟨mode.allowIn, async, false⟩
  return .function (← extentFrom first) found body

end IslandSlots.Script.Reader
