/-!
# Syntax of a script module

The parts of a module that the reader of a render function looks at: calls, callbacks, literals,
branches and loops, each with the place and the verbatim text of its source. What is never looked
into (operators, the targets of assignments, property names after a dot, the bodies of classes)
is left out.
-/

namespace IslandSlots.Script

/-- A stretch of the source: how many bytes come before it, and its text. -/
structure Extent where
  /-- Bytes before the stretch. -/
  start : Nat
  /-- The source of the stretch. -/
  text : String
  deriving DecidableEq, Repr, Inhabited

/-- The parameters of a function: the source of each pattern, without its default, and the source
of the rest parameter. -/
structure Parameters where
  /-- The patterns in order. -/
  patterns : List String
  /-- The rest parameter with its dots. -/
  rest : Option String
  deriving DecidableEq, Repr, Inhabited

mutual

/-- An expression. -/
inductive Expr where
  /-- A variable. -/
  | identifier (place : Extent) (name : String)
  /-- The literal `null`. -/
  | null (place : Extent)
  /-- A string literal and its value. -/
  | string (place : Extent) (value : String)
  /-- A template literal: the raw texts and the expressions between them. -/
  | template (place : Extent) (texts : List String) (holes : List Expr)
  /-- A template with a tag in front. -/
  | tagged (place : Extent) (holes : List Expr)
  /-- A call. -/
  | call (place : Extent) (callee : Expr) (arguments : List Item)
  /-- A chain of accesses and calls with `?.` in it. -/
  | chain (place : Extent) (link : Expr)
  /-- A `new` expression. -/
  | construct (place : Extent) (arguments : List Item)
  /-- An access to a property by name or by index. -/
  | member (place : Extent) (object : Expr)
  /-- A conditional expression. -/
  | conditional (place : Extent) (test yes no : Expr)
  /-- Two operands of an arithmetic, comparison or logical operator. -/
  | binary (place : Extent) (left right : Expr)
  /-- The operand of a prefixed operator or of `await`. -/
  | unary (place : Extent) (operand : Expr)
  /-- An assignment. -/
  | assign (place : Extent) (value : Expr)
  /-- Expressions joined by commas. -/
  | sequence (place : Extent) (parts : List Expr)
  /-- An array literal. -/
  | array (place : Extent) (items : List Item)
  /-- An object literal. -/
  | object (place : Extent) (members : List Member)
  /-- An arrow function or a function expression. -/
  | function (place : Extent) (parameters : Parameters) (body : Body)
  /-- An expression in parentheses. -/
  | paren (place : Extent) (inner : Expr)
  /-- Any other expression. -/
  | other (place : Extent)

/-- An argument of a call or an item of an array literal. -/
inductive Item where
  /-- An expression. -/
  | expr (value : Expr)
  /-- A spread expression. -/
  | spread (place : Extent) (value : Expr)
  /-- A place that is left empty. -/
  | hole

/-- A member of an object literal. -/
inductive Member where
  /-- A property or method. The label is the value of a key that is not computed and is a name or
  a string. -/
  | property (place : Extent) (key : Extent) (label : Option String) (value : Expr)
  /-- A spread expression. -/
  | spread (place : Extent) (value : Expr)

/-- The body of a function. -/
inductive Body where
  /-- An arrow that produces the value of an expression. -/
  | expression (value : Expr)
  /-- Statements in braces. -/
  | block (statements : List Statement)

/-- A statement. -/
inductive Statement where
  /-- An expression. -/
  | expression (value : Expr)
  /-- An `if`. -/
  | branch (start : Nat) (test : Expr) (yes : Statement) (no : Alternative)
  /-- Statements in braces. -/
  | block (statements : List Statement)
  /-- A `return` with a value. -/
  | returning (value : Expr)
  /-- A `throw`. -/
  | throwing (value : Expr)
  /-- Declared variables. -/
  | variables (declarators : List Declarator)
  /-- A loop or a labelled statement. -/
  | around (body : Statement)
  /-- A declared function. -/
  | function (name : String) (parameters : Parameters) (body : List Statement)
  /-- A declaration that is exported by name. -/
  | exported (place : Extent) (declaration : Statement)
  /-- A declared function that is the default export. -/
  | exportedDefault (place : Extent) (declaration : Statement)
  /-- A statement that produces nothing: an empty one, a jump, a `return` without a value. -/
  | inert
  /-- Any other statement. -/
  | other (place : Extent)

/-- What follows the first branch of an `if`. -/
inductive Alternative where
  /-- There is no `else`. -/
  | missing
  /-- The statement after `else`. -/
  | otherwise (start : Nat) (statement : Statement)

/-- A declared variable. -/
inductive Declarator where
  /-- A pattern without a value. -/
  | bare (pattern : String)
  /-- A pattern with its initial value. -/
  | initialized (pattern : String) (value : Expr)

end

instance : Inhabited Expr := ⟨.other default⟩
instance : Inhabited Statement := ⟨.inert⟩

namespace Expr

/-- The stretch of the source that an expression takes. -/
def extent : Expr → Extent
  | .identifier place _ => place
  | .null place => place
  | .string place _ => place
  | .template place _ _ => place
  | .tagged place _ => place
  | .call place _ _ => place
  | .chain place _ => place
  | .construct place _ => place
  | .member place _ => place
  | .conditional place _ _ _ => place
  | .binary place _ _ => place
  | .unary place _ => place
  | .assign place _ => place
  | .sequence place _ => place
  | .array place _ => place
  | .object place _ => place
  | .function place _ _ => place
  | .paren place _ => place
  | .other place => place

/-- Where an expression begins. -/
def start (expr : Expr) : Nat := expr.extent.start

/-- The source of an expression. -/
def text (expr : Expr) : String := expr.extent.text

/-- An expression without the parentheses around it. -/
def unparenthesized : Expr → Expr
  | .paren _ inner => inner.unparenthesized
  | expr => expr

/-- The variable that an expression is, parentheses aside. -/
def name? : Expr → Option String
  | .identifier _ name => some name
  | .paren _ inner => inner.name?
  | _ => none

/-- Whether an expression is `null`, `undefined` or `void 0`, parentheses aside. -/
def isNullish : Expr → Bool
  | .null _ => true
  | .identifier _ name => name == "undefined"
  | .paren _ inner => inner.isNullish
  | expr => expr.text == "void 0"

end Expr

namespace Parameters

/-- How a loop over the parameters is written: a lone pattern as it is, several in parentheses. -/
def binding (parameters : Parameters) : String :=
  match parameters.patterns, parameters.rest with
  | [], none => ""
  | [only], none => only
  | patterns, rest => "(" ++ ", ".intercalate (patterns ++ rest.toList) ++ ")"

/-- The first pattern, unless it is the placeholder `_`. -/
def scope (parameters : Parameters) : Option String :=
  parameters.patterns.head?.filter (· ≠ "_")

end Parameters

/-- The value of the first property with the given label. -/
def labelled? (label : String) : List Member → Option Expr
  | [] => none
  | .property _ _ (some found) value :: members =>
    if found = label then some value else labelled? label members
  | _ :: members => labelled? label members

end IslandSlots.Script
