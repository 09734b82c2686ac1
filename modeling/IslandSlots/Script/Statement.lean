import IslandSlots.Script.Expression

/-!
# Statements

Statements and declarations, those of modules included.
-/

namespace IslandSlots.Script.Reader

/-- A variable with its initial value, if it has one. A pattern has to have one, and so has a
constant, unless the head of a loop gives it. -/
structure Declared where
  /-- The variable. -/
  declarator : Declarator
  /-- Where a missing initial value shows, if there should be one. -/
  missing : Option Nat

/-- A declared variable. -/
def declarator (nested : Nested) (mode : Mode) (constant : Bool) : Reader Declared := do
  let first ← token
  nested.pattern mode
  let pattern ← extentFrom first
  match ← initial? nested mode with
  | some value => return ⟨.initialized pattern.text value, none⟩
  | none =>
    let missing :=
      if first.name?.isNone then some first.start
      else if constant then some (first.start + pattern.text.utf8ByteSize)
      else none
    return ⟨.bare pattern.text, missing⟩

/-- Declared variables between commas. -/
def declarators (nested : Nested) (mode : Mode) (constant : Bool) : Reader (List Declared) :=
  repeatPart (fun found => do
    let found := (← declarator nested mode constant) :: found
    if ← eat "," then return .inl found else return .inr found.reverse) []

/-- Declared variables that no loop gives a value to. -/
def settled (found : List Declared) : Reader Statement := do
  match found.findSome? Declared.missing with
  | some offset => complain offset
  | none => pure ()
  return .variables (found.map Declared.declarator)

/-- How a declaration of variables begins: whether it declares constants, and whether it takes two
words. -/
structure DeclarationWord where
  /-- Whether every variable needs an initial value. -/
  constant : Bool
  /-- Whether a second word belongs to it. -/
  double : Bool

/-- Whether a token can be the first of a declared variable after a word that is no keyword. -/
def beginsPattern (next : Token) : Bool :=
  next.binding?.isSome || next.isPunctuator "[" || next.isPunctuator "\x7b"

/-- Whether variables are declared here. -/
def declarationWord? : Reader (Option DeclarationWord) := do
  let first ← token
  match first.kind with
  | .name word true =>
    if word == "var" then return some ⟨false, false⟩
    else if word == "const" then return some ⟨true, false⟩
    else if word == "let" then
      return if beginsPattern (← peek) then some ⟨false, false⟩ else none
    else if word == "using" then
      let next ← peek
      return if next.binding?.isSome && !next.newline && !next.isWord "of" then
        some ⟨true, false⟩ else none
    else if word == "await" then
      let next ← peek
      if next.isWord "using" && !next.newline then
        let after ← next.following
        return if after.binding?.isSome && !after.newline then some ⟨true, true⟩ else none
      else return none
    else return none
  | _ => return none

/-- Takes the words that begin a declaration of variables. -/
def eatDeclarationWord (word : DeclarationWord) : Reader Unit := do
  discard advance
  if word.double then discard advance

/-- An expression in parentheses after a keyword. -/
def condition (nested : Nested) (mode : Mode) : Reader Expr := do
  expect "("
  let test ← sequence nested mode.inside
  expect ")"
  return test

/-- The rest of the head of a counting loop, after its first semicolon. -/
def countingHead (nested : Nested) (mode : Mode) : Reader Unit := do
  unless ← atPunctuator ";" do discard (sequence nested mode.inside)
  expect ";"
  unless ← atPunctuator ")" do discard (sequence nested mode.inside)

/-- What a loop runs over. -/
inductive LoopRange where
  /-- The items of a value. -/
  | items
  /-- The keys of a value. -/
  | keys
  /-- Nothing: the loop counts for itself. -/
  | nothing
  deriving DecidableEq

/-- What a loop runs over, after its variable. -/
def range (nested : Nested) (mode : Mode) : Reader LoopRange := do
  if ← eatWord "of" then
    discard (nested.assignment mode.inside)
    return .items
  else if ← eatWord "in" then
    discard (sequence nested mode.inside)
    return .keys
  else return .nothing

/-- The head of a loop after its opening parenthesis. -/
def loopHead (nested : Nested) (mode : Mode) : Reader LoopRange := do
  if ← eat ";" then
    countingHead nested mode
    return .nothing
  else
    match ← declarationWord? with
    | some word =>
      eatDeclarationWord word
      let found ← declarators nested mode.inHead word.constant
      let reach ← range nested mode
      if reach = .nothing then
        discard (settled found)
        expect ";"
        countingHead nested mode
      return reach
    | none =>
      let first ← token
      let start ← sequence nested mode.inHead
      let next ← token
      if next.isWord "of" || next.isWord "in" then
        checkTarget first start
        takeUp first.start
      let reach ← range nested mode
      if reach = .nothing then
        expect ";"
        countingHead nested mode
      return reach

/-- The clauses of a `switch` in braces. -/
def switchClauses (nested : Nested) (mode : Mode) : Reader Unit := do
  expect "\x7b"
  discard <| manyUntil "\x7d" do
    if ← eatWord "case" then discard (sequence nested mode.inside)
    else expectWord "default"
    expect ":"
    repeatPart (fun () => do
      let next ← token
      if next.isWord "case" || next.isWord "default" || next.isPunctuator "\x7d" then
        return .inr ()
      else
        discard (nested.statement mode)
        return .inl ()) ()

/-- What follows the keyword `try`. -/
def tryRest (nested : Nested) (mode : Mode) : Reader Unit := do
  discard (blockStatements nested mode)
  let stop := (← get).stop
  let caught ← eatWord "catch"
  if caught then
    if ← eat "(" then
      nested.pattern mode
      expect ")"
    discard (blockStatements nested mode)
  let finished ← eatWord "finally"
  if finished then discard (blockStatements nested mode)
  unless caught || finished do complain stop

/-- A declared function, given whether it is asynchronous, from its keyword on. -/
def functionDeclaration (nested : Nested) (async : Bool) : Reader Statement := do
  discard advance
  let generator ← eat "*"
  let name ← variableName
  let (found, statements) ← functionRest nested async generator
  return .function name found statements

/-- The attributes of an imported module, if there are any. -/
def importAttributes : Reader Unit := do
  let next ← token
  if next.isWord "with" || next.isWord "assert" && !next.newline then
    discard advance
    expect "\x7b"
    discard <| commaUntil "\x7d" do
      match (← advance).kind with
      | .name .. => pure ()
      | .string _ => pure ()
      | _ => fail
      expect ":"
      match (← token).kind with
      | .string _ => discard advance
      | _ => fail

/-- The module that names are taken from, to the end of the statement. -/
def moduleSource : Reader Unit := do
  match (← token).kind with
  | .string _ => discard advance
  | _ => fail
  importAttributes
  endStatement

/-- A name of a module, which may be a string. -/
def moduleName : Reader Unit := do
  match (← token).kind with
  | .name .. => discard advance
  | .string _ => discard advance
  | _ => fail

/-- An imported name with the variable that stands for it. A name that is a variable stands for
itself. -/
def importedName : Reader Unit := do
  let first ← token
  moduleName
  if ← eatWord "as" then discard variableName
  else if first.binding?.isNone then failAt first.start

/-- An exported name with the name that it has elsewhere, if that differs: the place of the name
where it is no variable. -/
def exportedName : Reader (Option Nat) := do
  let first ← token
  moduleName
  if ← eatWord "as" then moduleName
  return if first.binding?.isNone then some first.start else none

/-- The names that are imported, in braces. -/
def importedNames : Reader Unit := do
  expect "\x7b"
  discard (commaUntil "\x7d" importedName)

/-- The names that are exported, in braces, up to the end of the statement. Without a module that
they are taken from they are variables. -/
def exportedNames : Reader Unit := do
  expect "\x7b"
  let found ← commaUntil "\x7d" exportedName
  if ← eatWord "from" then moduleSource
  else
    match found.findSome? id with
    | some offset => complain offset
    | none => pure ()
    endStatement

/-- The name for all of a module. -/
def namespaceName : Reader Unit := do
  expect "*"
  expectWord "as"
  discard variableName

/-- What follows the keyword `import` in a declaration. -/
def importRest : Reader Unit := do
  match (← token).kind with
  | .string _ => moduleSource
  | _ =>
    let next ← token
    if next.isPunctuator "*" then namespaceName
    else if next.isPunctuator "\x7b" then importedNames
    else
      discard variableName
      if ← eat "," then
        if ← atPunctuator "*" then namespaceName else importedNames
    expectWord "from"
    moduleSource

/-- Whether an asynchronous function is declared here. -/
def atAsyncFunction : Reader Bool := do
  if ← atWord "async" then
    let next ← peek
    return next.isWord "function" && !next.newline
  else return false

/-- A declaration of variables, a function or a class after `export`. -/
def exportedDeclaration (nested : Nested) (mode : Mode) : Reader Statement := do
  match ← declarationWord? with
  | some word =>
    eatDeclarationWord word
    let statement ← settled (← declarators nested mode word.constant)
    endStatement
    return statement
  | none =>
    if ← atAsyncFunction then
      discard advance
      functionDeclaration nested true
    else if ← atWord "function" then functionDeclaration nested false
    else
      expectWord "class"
      classRest nested mode
      return .inert

/-- A function that is the default export, which need not have a name. -/
def defaultFunction (nested : Nested) (async : Bool) : Reader Statement := do
  discard advance
  let generator ← eat "*"
  let name := (← token).binding?
  if name.isSome then discard advance
  let (found, statements) ← functionRest nested async generator
  return name.elim .inert fun name => .function name found statements

/-- The default export after its keywords. -/
def defaultExport (nested : Nested) (mode : Mode) : Reader Statement := do
  if ← atAsyncFunction then
    discard advance
    defaultFunction nested true
  else if ← atWord "function" then defaultFunction nested false
  else if ← eatWord "class" then
    classRest nested mode
    return .inert
  else
    discard (nested.assignment mode)
    endStatement
    return .inert

/-- A declaration that begins with `export`. -/
def exportStatement (nested : Nested) (mode : Mode) : Reader Statement := do
  let first ← advance
  if ← eat "*" then
    if ← eatWord "as" then moduleName
    expectWord "from"
    moduleSource
    return .other (← extentFrom first)
  else if ← atPunctuator "\x7b" then
    exportedNames
    return .other (← extentFrom first)
  else if ← eatWord "default" then
    let declaration ← defaultExport nested mode
    return .exportedDefault (← extentFrom first) declaration
  else
    let declaration ← exportedDeclaration nested mode
    return .exported (← extentFrom first) declaration

/-- A jump, with the label that it may name on the same line. -/
def jump : Reader Statement := do
  discard advance
  let next ← token
  if next.binding?.isSome && !next.newline then discard advance
  endStatement
  return .inert

/-- A statement of one expression. -/
def expressionStatement (nested : Nested) (mode : Mode) : Reader Statement := do
  let value ← sequence nested mode
  endStatement
  return .expression value

/-- Whether the next token begins a declaration that only a block or a body can hold: of a class,
of the variables of a block, or of a function that is asynchronous or a generator. -/
def atBlockDeclaration : Reader Bool := do
  let first ← token
  if first.isWord "class" || first.isWord "const" then return true
  else if first.isWord "let" then return (← peek).isPunctuator "["
  else if first.isWord "function" then return (← peek).isPunctuator "*"
  else atAsyncFunction

/-- The statement of a branch, a loop or a label. The word `let` is a variable there. -/
def innerStatement (nested : Nested) (mode : Mode) : Reader Statement := do
  let first ← token
  if ← atBlockDeclaration then
    complain first.start
    nested.statement mode
  else if first.isWord "let" then
    if beginsPattern (← peek) then expressionStatement nested mode else nested.statement mode
  else nested.statement mode

/-- An `if` with its branches. -/
def branchStatement (nested : Nested) (mode : Mode) : Reader Statement := do
  let first ← advance
  let test ← condition nested mode
  let yes ← innerStatement nested mode
  if ← eatWord "else" then
    let start := (← token).start
    return .branch first.start test yes (.otherwise start (← innerStatement nested mode))
  else return .branch first.start test yes .missing

/-- A loop with a head. One that awaits runs over items. -/
def loopStatement (nested : Nested) (mode : Mode) : Reader Statement := do
  let first ← advance
  let word ← token
  let awaits ← eatWord "await"
  if awaits && !mode.await then complain word.start
  expect "("
  let reach ← loopHead nested mode
  expect ")"
  let body ← innerStatement nested mode
  if awaits && reach ≠ .items then complain first.start
  return .around body

/-- A `return` with its value, if it has one. -/
def returnStatement (nested : Nested) (mode : Mode) : Reader Statement := do
  discard advance
  let next ← token
  if next.newline || next.isPunctuator ";" || next.isPunctuator "\x7d" || next.isFinish then
    endStatement
    return .inert
  else
    let value ← sequence nested mode
    endStatement
    return .returning value

/-- A statement that begins with a keyword. -/
def keywordStatement? (nested : Nested) (mode : Mode) (word : String) :
    Option (Reader Statement) :=
  match word with
  | "if" => some (branchStatement nested mode)
  | "for" => some (loopStatement nested mode)
  | "while" => some do
    discard advance
    discard (condition nested mode)
    return .around (← innerStatement nested mode)
  | "do" => some do
    discard advance
    let body ← innerStatement nested mode
    expectWord "while"
    discard (condition nested mode)
    discard (eat ";")
    return .around body
  | "return" => some (returnStatement nested mode)
  | "throw" => some do
    let first ← advance
    if (← token).newline then complain first.start
    let value ← sequence nested mode
    endStatement
    return .throwing value
  | "break" => some jump
  | "continue" => some jump
  | "debugger" => some do
    discard advance
    endStatement
    return .inert
  | "switch" => some do
    let first ← advance
    discard (condition nested mode)
    switchClauses nested mode
    return .other (← extentFrom first)
  | "try" => some do
    let first ← advance
    tryRest nested mode
    return .other (← extentFrom first)
  | "with" => some do
    let first ← advance
    discard (condition nested mode)
    discard (innerStatement nested mode)
    return .other (← extentFrom first)
  | "class" => some do
    let first ← advance
    if (← token).binding?.isNone then fail
    classRest nested mode
    return .other (← extentFrom first)
  | "function" => some (functionDeclaration nested false)
  | "export" => some (exportStatement nested mode)
  | _ => none

/-- A statement that begins with a word that is no keyword of a statement. -/
def wordStatement (nested : Nested) (mode : Mode) (first : Token) : Reader Statement := do
  match ← declarationWord? with
  | some word =>
    eatDeclarationWord word
    let statement ← settled (← declarators nested mode word.constant)
    endStatement
    return statement
  | none =>
    if ← atAsyncFunction then
      discard advance
      functionDeclaration nested true
    else
      let next ← peek
      if first.isWord "import" && !next.isPunctuator "(" && !next.isPunctuator "." then
        discard advance
        importRest
        return .other (← extentFrom first)
      else if first.binding?.isSome && next.isPunctuator ":" then
        discard advance
        discard advance
        return .around (← innerStatement nested mode)
      else expressionStatement nested mode

/-- A statement. -/
def statement (nested : Nested) (mode : Mode) : Reader Statement := do
  let first ← token
  match first.kind with
  | .punctuator "\x7b" => Statement.block <$> blockStatements nested mode
  | .punctuator ";" =>
    discard advance
    return .inert
  | .name word true =>
    match keywordStatement? nested mode word with
    | some reader => reader
    | none => wordStatement nested mode first
  | .name _ false => wordStatement nested mode first
  | .punctuator "@" =>
    discard advance
    discard (nested.operand mode)
    discard (nested.statement mode)
    return .other (← extentFrom first)
  | _ => expressionStatement nested mode

end IslandSlots.Script.Reader
