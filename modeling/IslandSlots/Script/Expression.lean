import IslandSlots.Script.Literal

/-!
# Expressions

Operands with their accesses and calls, operators by how tightly they bind, arrow functions and
assignments.
-/

namespace IslandSlots.Script.Reader

/-- A function after its keyword, given its first token. -/
def functionExpression (nested : Nested) (first : Token) (async : Bool) : Reader Expr := do
  discard advance
  let generator ← eat "*"
  if (← token).binding?.isSome then discard advance
  let (found, statements) ← functionRest nested async generator
  return .function (← extentFrom first) found (.block statements)

/-- The module, and perhaps the options, that a call of `import` takes in parentheses, given the
first token of the call. -/
def importArguments (nested : Nested) (mode : Mode) (first : Token) : Reader Unit := do
  expect "("
  if ← atPunctuator ")" then failAt first.start
  discard (nested.assignment mode.inside)
  if ← eat "," then
    unless ← atPunctuator ")" do discard (nested.assignment mode.inside)
  discard (eat ",")
  unless ← eat ")" do failAt first.start

/-- The rest of an expression that begins with the keyword `import`. -/
def importExpression (nested : Nested) (mode : Mode) (first : Token) : Reader Expr := do
  if ← eat "." then
    if (← atWord "source") || (← atWord "defer") then
      discard advance
      importArguments nested mode first
    else unless ← eatWord "meta" do failAt first.start
  else importArguments nested mode first
  return .other (← extentFrom first)

/-- The word `super` after it is taken. It stands only in front of an access or a call. -/
def superRest (first : Token) : Reader Expr := do
  let next ← token
  unless next.isPunctuator "." || next.isPunctuator "[" || next.isPunctuator "(" do
    complain first.start
  return .other (← extentFrom first)

/-- An expression in parentheses. -/
def parenthesized (nested : Nested) (mode : Mode) : Reader Expr := do
  let first ← token
  expect "("
  if ← atPunctuator ")" then failAt first.start
  let inner ← sequence nested mode.inside
  expect ")"
  return .paren (← extentFrom first) inner

/-- An expression that begins with a word. -/
def wordExpression (nested : Nested) (mode : Mode) (first : Token) (word : String)
    (plain : Bool) : Reader Expr := do
  if plain && word == "function" then functionExpression nested first false
  else if plain && word == "class" then
    discard advance
    classRest nested mode
    return .other (← extentFrom first)
  else if plain && word == "null" then
    discard advance
    return .null (← extentFrom first)
  else if plain && (word == "this" || word == "true" || word == "false") then
    discard advance
    return .other (← extentFrom first)
  else if plain && word == "super" then
    discard advance
    superRest first
  else if plain && word == "import" then
    discard advance
    importExpression nested mode first
  else
    let next ← peek
    if plain && word == "async" && next.isWord "function" && !next.newline then
      discard advance
      functionExpression nested first true
    else
      let name ← variableName
      return .identifier (← extentFrom first) name

/-- An expression that no access or call is part of. -/
def primary (nested : Nested) (mode : Mode) : Reader Expr := do
  let first ← token
  match first.kind with
  | .string value =>
    discard advance
    return .string (← extentFrom first) value
  | .number =>
    discard advance
    return .other (← extentFrom first)
  | .template .. =>
    let (texts, holes) ← templateParts nested mode false
    return .template (← extentFrom first) texts holes
  | .privateName =>
    discard advance
    expectWord "in"
    discard (nested.operators mode 8)
    return .other (← extentFrom first)
  | .name word plain => wordExpression nested mode first word plain
  | .punctuator "(" => parenthesized nested mode
  | .punctuator "[" =>
    discard advance
    let items ← arrayItems nested mode
    return .array (← extentFrom first) items
  | .punctuator "\x7b" =>
    discard advance
    let members ← commaUntil "\x7d" (objectMember nested mode.inside)
    return .object (← extentFrom first) members
  | .punctuator "@" =>
    discard advance
    discard (nested.operand mode)
    nested.operand mode
  | .punctuator text =>
    if text == "/" || text == "/=" then
      retoken (← first.asRegex)
      discard advance
      return .other (← extentFrom first)
    else fail
  | _ => fail

/-- What follows `new`, after that keyword. Nothing is made of a call of `import`, and no access
that stops at a missing value comes before the arguments. -/
def newRest (nested : Nested) (mode : Mode) (first : Token) : Reader Expr := do
  if ← eat "." then
    unless ← eatWord "target" do failAt first.start
    return .other (← extentFrom first)
  else
    let object ← token
    if object.isWord "import" then
      if (← peek).isPunctuator "(" then complain object.start
    discard (nested.constructed mode)
    if ← atPunctuator "?." then fail
    let items ← if ← atPunctuator "(" then arguments nested mode else pure []
    return .construct (← extentFrom first) items

/-- An operand without the accesses and calls after it. -/
def base (nested : Nested) (mode : Mode) : Reader Expr := do
  let first ← token
  if ← eatWord "new" then newRest nested mode first else primary nested mode

/-- An access by name, after its dot. -/
def namedAccess (first : Token) (object : Expr) : Reader Expr := do
  match (← token).kind with
  | .name .. =>
    discard advance
    return .member (← extentFrom first) object
  | .privateName =>
    discard advance
    return .other (← extentFrom first)
  | _ => fail

/-- An access by index, after its bracket. -/
def indexAccess (nested : Nested) (mode : Mode) (first : Token) (object : Expr) :
    Reader Expr := do
  discard (sequence nested mode.inside)
  expect "]"
  return .member (← extentFrom first) object

/-- A template with a tag. -/
def taggedTemplate (nested : Nested) (mode : Mode) (first : Token) : Reader Expr := do
  let (_, holes) ← templateParts nested mode true
  return .tagged (← extentFrom first) holes

/-- An access to a value that is no call and does not stop at a missing value, if there is one. -/
def access? (nested : Nested) (mode : Mode) (first : Token) (object : Expr) :
    Reader (Option Expr) := do
  match (← token).kind with
  | .template .. => return some (← taggedTemplate nested mode first)
  | .punctuator "." =>
    discard advance
    return some (← namedAccess first object)
  | .punctuator "[" =>
    discard advance
    return some (← indexAccess nested mode first object)
  | _ => return none

/-- What `new` makes an object of. -/
def constructed (nested : Nested) (mode : Mode) : Reader Expr := do
  let first ← token
  let object ← base nested mode
  repeatPart (fun object => do
    match ← access? nested mode first object with
    | some found => return .inl found
    | none => return .inr object) object

/-- A call of a value. -/
def callOf (nested : Nested) (mode : Mode) (first : Token) (callee : Expr) : Reader Expr := do
  let items ← arguments nested mode
  return .call (← extentFrom first) callee items

/-- An access or call that stops at a missing value, after its mark. -/
def optionalAccess (nested : Nested) (mode : Mode) (first : Token) (object : Expr) :
    Reader Expr := do
  if ← atPunctuator "(" then callOf nested mode first object
  else if ← eat "[" then indexAccess nested mode first object
  else namedAccess first object

/-- Whether the next token is a piece of a template. -/
def atTemplate : Reader Bool := do
  match (← token).kind with
  | .template .. => return true
  | _ => return false

/-- An operand with the accesses and calls after it. One that stops at a missing value makes the
whole a chain, in which no template has a tag. -/
def accessed (nested : Nested) (mode : Mode) : Reader Expr := do
  let first ← token
  let object ← base nested mode
  repeatPart (fun (object, optional) => do
    if ← atPunctuator "(" then return .inl (← callOf nested mode first object, optional)
    else if ← eat "?." then return .inl (← optionalAccess nested mode first object, true)
    else
      let next ← token
      if optional && (← atTemplate) then complain next.start
      match ← access? nested mode first object with
      | some found => return .inl (found, optional)
      | none =>
        return .inr (if optional then .chain object.extent object else object)) (object, false)

/-- Whether an expression can be assigned to, given its first token. -/
def isTarget (first : Token) : Expr → Bool
  | .identifier .. => true
  | .member .. => true
  | .array .. => true
  | .object .. => true
  | .paren _ inner => isTarget first inner
  | .other place => first.start + place.text.utf8ByteSize != first.stop
  | _ => false

/-- Stops at an expression that cannot be assigned to, given its first token. -/
def checkTarget (first : Token) (target : Expr) : Reader Unit := do
  unless isTarget first target do failAt first.start

/-- An operand with an operator that counts it up or down after it, if there is one. -/
def counted (nested : Nested) (mode : Mode) : Reader Expr := do
  let first ← token
  let operand ← accessed nested mode
  let mark ← token
  if (mark.isPunctuator "++" || mark.isPunctuator "--") && !mark.newline then
    checkTarget first operand
    discard advance
    return .other (← extentFrom first)
  else return operand

/-- Whether a token can begin an operand right after a word. -/
def followsWord (next : Token) : Bool :=
  !next.newline &&
    match next.kind with
    | .name .. => true
    | .number => true
    | .string _ => true
    | .template .. => true
    | _ => false

/-- Whether the next token is the given word as an operator: where the word is one, or where an
operand follows it on its line. -/
def atOperatorWord (word : String) (isOperator : Bool) : Reader Bool := do
  if ← atWord word then
    if isOperator then return true else return followsWord (← peek)
  else return false

/-- Whether a token is an operator in front of its operand. -/
def isPrefixOperator (token : Token) : Bool :=
  match token.kind with
  | .punctuator text => text == "+" || text == "-" || text == "!" || text == "~"
  | .name word true => word == "typeof" || word == "void" || word == "delete"
  | _ => false

/-- An operand with the operators before and after it. -/
def operand (nested : Nested) (mode : Mode) : Reader Expr := do
  let first ← token
  if isPrefixOperator first then
    discard advance
    let inner ← nested.operand mode
    let place ← extentFrom first
    if ← atPunctuator "**" then complain first.start
    return .unary place inner
  else if first.isPunctuator "++" || first.isPunctuator "--" then
    discard advance
    let target ← token
    checkTarget target (← nested.operand mode)
    return .other (← extentFrom first)
  else
    if first.isWord "await" && !mode.await then complain first.start
    if ← atOperatorWord "await" mode.await then
      discard advance
      let inner ← nested.operand mode
      return .unary (← extentFrom first) inner
    else counted nested mode

/-- How tightly a token binds as an operator between two operands. -/
def strength? (mode : Mode) (token : Token) : Option Nat :=
  match token.kind with
  | .punctuator text =>
    if text == "??" then some 1
    else if text == "||" then some 2
    else if text == "&&" then some 3
    else if text == "|" then some 4
    else if text == "^" then some 5
    else if text == "&" then some 6
    else if text == "==" || text == "!=" || text == "===" || text == "!==" then some 7
    else if text == "<" || text == ">" || text == "<=" || text == ">=" then some 8
    else if text == "<<" || text == ">>" || text == ">>>" then some 9
    else if text == "+" || text == "-" then some 10
    else if text == "*" || text == "/" || text == "%" then some 11
    else if text == "**" then some 12
    else none
  | .name word true =>
    if word == "instanceof" || word == "in" && mode.allowIn then some 8 else none
  | _ => none

/-- How tightly the operators in the right operand of an operator bind at least, given how tightly
that one binds. All but the power operator group to the left. No `||` or `&&` stands in an operand
of `??`. -/
def rightLevel (strength : Nat) : Nat :=
  if strength == 12 then 11 else if strength == 1 then 3 else strength

/-- Whether an operator that binds this tightly is `||` or `&&`. -/
def isLogical (strength : Nat) : Bool :=
  strength == 2 || strength == 3

/-- An expression of operators that bind tighter than `level`. -/
def operators (nested : Nested) (mode : Mode) (level : Nat) : Reader Expr := do
  let first ← token
  let left ← nested.operand mode
  repeatPart (fun (left, logical) => do
    match strength? mode (← token) with
    | some strength =>
      if level < strength then
        discard advance
        let right ← nested.operators mode (rightLevel strength)
        let whole := Expr.binary (← extentFrom first) left right
        let next := strength? mode (← token)
        if strength == 1 && (logical || next.any isLogical) then complain first.start
        return .inl (whole, isLogical strength)
      else return .inr left
    | none => return .inr left) (left, false)

/-- The operators that assign. -/
def assignmentOperators : List String :=
  ["=", "+=", "-=", "*=", "/=", "%=", "**=", "<<=", ">>=", ">>>=", "&=", "|=", "^=", "&&=", "||=",
    "??="]

/-- Takes up the initial values of object literals from a place on, which turn out to be part of a
pattern. -/
def takeUp (start : Nat) : Reader Unit :=
  modify fun state => { state with loose := state.loose.filter (· < start) }

/-- An expression of operators, with a condition or an assignment after it if there is one. -/
def conditionOrAssignment (nested : Nested) (mode : Mode) : Reader Expr := do
  let first ← token
  let left ← nested.operators mode 0
  if ← eat "?" then
    let yes ← nested.assignment mode.inside
    expect ":"
    let no ← nested.assignment mode
    return .conditional (← extentFrom first) left yes no
  else
    match (← token).kind with
    | .punctuator text =>
      if assignmentOperators.contains text then
        checkTarget first left
        takeUp first.start
        discard advance
        let value ← nested.assignment mode
        return .assign (← extentFrom first) value
      else return left
    | _ => return left

/-- A `yield` with the value it hands out, if there is one. -/
def yieldExpression (nested : Nested) (mode : Mode) : Reader Expr := do
  let first ← advance
  let next ← token
  if !next.newline then
    if ← eat "*" then discard (nested.assignment mode)
    else
      let ends := match next.kind with
        | .punctuator text => [")", "]", "\x7d", ",", ";", ":"].contains text
        | .finish => true
        | _ => next.isWord "in"
      unless ends do discard (nested.assignment mode)
  return .other (← extentFrom first)

/-- An asynchronous arrow function after its keyword, if there is one, with its parameters. -/
def asyncArrowHead? (nested : Nested) (mode : Mode) : Reader (Option Parameters) := do
  discard advance
  let next ← token
  if next.newline then return none
  else if next.isPunctuator "(" then arrowHead? nested mode
  else if next.binding?.isSome then
    let name ← variableName
    if ← eatArrow then return some ⟨[name], none⟩ else return none
  else return none

/-- The parameters of an arrow function that begins here, and whether it is asynchronous. -/
def arrow? (nested : Nested) (mode : Mode) : Reader (Option (Bool × Parameters)) := do
  let first ← token
  if first.isPunctuator "(" then
    return (← attempt (arrowHead? nested mode)).map ((false, ·))
  else if first.binding?.isNone then return none
  else
    let next ← peek
    if next.isPunctuator "=>" && !next.newline then
      discard advance
      let name ← extentFrom first
      discard advance
      return some (false, ⟨[name.text], none⟩)
    else if first.isWord "async" then
      return (← attempt (asyncArrowHead? nested ⟨mode.allowIn, true, mode.yield⟩)).map ((true, ·))
    else return none

/-- An expression without commas. -/
def assignment (nested : Nested) (mode : Mode) : Reader Expr := do
  let first ← token
  if ← atOperatorWord "yield" mode.yield then
    if !mode.yield then complain first.start
    yieldExpression nested mode
  else
    match ← arrow? nested mode with
    | some (async, found) => arrowRest nested mode async first found
    | none => conditionOrAssignment nested mode

end IslandSlots.Script.Reader
