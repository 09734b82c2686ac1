import IslandSlots.Script.Pattern

/-!
# Literals

Templates, arrays, objects and classes: the expressions that are written with brackets of their
own around other expressions.
-/

namespace IslandSlots.Script.Reader

/-- The texts and the expressions of a template. -/
def templateParts (nested : Nested) (mode : Mode) (tagged : Bool) :
    Reader (List String × List Expr) :=
  repeatPart (fun (texts, holes) => do
    let piece ← token
    match piece.kind with
    | .template raw last valued =>
      if !valued && !tagged then complain (piece.start + 1)
      discard advance
      let texts := raw :: texts
      if last then return .inr (texts.reverse, holes.reverse)
      else
        let hole ← sequence nested mode.inside
        return .inl (texts, hole :: holes)
    | .punctuator "\x7d" =>
      retoken (← piece.asTemplate)
      return .inl (texts, holes)
    | _ =>
      let hole ← sequence nested mode.inside
      return .inl (texts, hole :: holes)) ([], [])

/-- An expression that may be spread. -/
def spreadable (nested : Nested) (mode : Mode) : Reader Item := do
  let first ← token
  if ← eat "..." then
    let value ← nested.assignment mode
    return .spread (← extentFrom first) value
  else return .expr (← nested.assignment mode)

/-- The arguments of a call in parentheses. -/
def arguments (nested : Nested) (mode : Mode) : Reader (List Item) := do
  expect "("
  commaUntil ")" (spreadable nested mode.inside)

/-- The items of an array literal after the opening bracket. -/
def arrayItems (nested : Nested) (mode : Mode) : Reader (List Item) :=
  commaUntil "]" do
    if ← atPunctuator "," then return .hole else spreadable nested mode.inside

/-- What may stand before the key of a method. -/
structure Modifiers where
  /-- Whether the method is asynchronous. -/
  async : Bool
  /-- Whether the method is a generator. -/
  generator : Bool
  /-- Whether the method gets or sets a property. -/
  accessor : Bool

/-- Whether a word stands before the key it belongs to rather than being the key. -/
def isModifier (word : String) (sameLine : Bool) : Reader Bool := do
  if ← atWord word then
    let next ← peek
    if sameLine && next.newline then return false
    else
      match next.kind with
      | .punctuator text =>
        return text == "[" || text == "*" || text == "\x7b" && word == "static"
      | .finish => return false
      | .template .. => return false
      | .regex => return false
      | _ => return true
  else return false

/-- Takes a word that stands before the key it belongs to. -/
def eatModifier (word : String) (sameLine : Bool) : Reader Bool := do
  if ← isModifier word sameLine then
    discard advance
    return true
  else return false

/-- What stands before the key of a property or method. -/
def modifiers : Reader Modifiers := do
  let async ← eatModifier "async" true
  let generator ← eat "*"
  let getter ← if async || generator then pure false else eatModifier "get" false
  let setter ← if async || generator || getter then pure false else eatModifier "set" false
  return ⟨async, generator, getter || setter⟩

/-- A member of an object literal. -/
def objectMember (nested : Nested) (mode : Mode) : Reader Member := do
  let first ← token
  if ← eat "..." then
    let value ← nested.assignment mode
    return .spread (← extentFrom first) value
  else
    let found ← modifiers
    let key ← propertyKey nested mode
    if found.async || found.generator || found.accessor || (← atPunctuator "(") then
      let value ← method nested found.async found.generator
      return .property (← extentFrom first) key.place key.label value
    else if ← eat ":" then
      let value ← nested.assignment mode
      return .property (← extentFrom first) key.place key.label value
    else
      match key.short with
      | some name =>
        if ← atPunctuator "=" then
          discard (initial? nested mode)
          modify fun state => { state with loose := key.place.start :: state.loose }
        return .property (← extentFrom first) key.place key.label (.identifier key.place name)
      | none => fail

/-- A member of a class. -/
def classMember (nested : Nested) : Reader Unit := do
  let mode : Mode := ⟨true, false, false⟩
  if ← eat ";" then return
  discard <| repeatPart (fun () => do
    if ← eat "@" then
      discard (nested.operand mode)
      return .inl ()
    else return .inr ()) ()
  let isStatic ← eatModifier "static" false
  if isStatic && (← atPunctuator "\x7b") then discard (blockStatements nested ⟨true, true, false⟩)
  else
    discard (eatModifier "accessor" true)
    let found ← modifiers
    discard (propertyKey nested mode)
    if found.async || found.generator || found.accessor || (← atPunctuator "(") then
      discard (method nested found.async found.generator)
    else
      discard (initial? nested mode)
      endStatement

/-- A class after its keyword. -/
def classRest (nested : Nested) (mode : Mode) : Reader Unit := do
  if (← token).binding?.isSome then discard advance
  if ← eatWord "extends" then discard (nested.operand mode)
  expect "\x7b"
  discard (manyUntil "\x7d" (classMember nested))

end IslandSlots.Script.Reader
