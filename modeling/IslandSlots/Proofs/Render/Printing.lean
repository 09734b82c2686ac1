import IslandSlots.Proofs.Markup.Plain
import IslandSlots.Render.Branch
import IslandSlots.Render.HelperNames
import IslandSlots.Script.Syntax

/-!
# Printed trees

A forest printed as the statements of a render function: a push for each start tag, text, end tag
and end of a fragment, an `if` with its alternatives for each run of conditionals, and a call of the
helper for each iteration and each component. A forest is canonical when every part of it shows in
what is printed.
-/

namespace IslandSlots

open Script

/-- The parts of what is printed for branches in a row. -/
inductive Part where
  /-- What is printed for the branches after the first. -/
  | rest
  /-- What is printed for the branches under the first. -/
  | inside
  /-- The push of the end tag. -/
  | endTag
  /-- A pushing statement. -/
  | push
  /-- The name of the push helper. -/
  | pushName
  /-- What is pushed. -/
  | pushed
  /-- A call of another helper. -/
  | call
  /-- The name of that helper. -/
  | callName
  /-- A function. -/
  | function
  /-- The test of a conditional, the collection of an iteration, or a component. -/
  | subject
  /-- The properties of a component. -/
  | props
  /-- The object of the slots of a component. -/
  | slots
  /-- A slot in the object. -/
  | slot
  /-- The key of the slot. -/
  | key
  /-- An `if` statement. -/
  | branch
  /-- What follows `else`. -/
  | alternative

/-- How the parts of a printed forest look in the source. A part is given by the way to it, from
the inside outwards. -/
structure Spelling where
  /-- An expression with the given source. -/
  expr : List Part → String → Expr
  /-- The source of an expression is the given one. -/
  text_expr : ∀ path text, (expr path text).text = text
  /-- A variable that stands for output that cannot be told. -/
  hidden : List Part → String
  /-- The place of a part. -/
  place : List Part → Extent

namespace Spelling

variable (spelling : Spelling) (helpers : HelperNames)

/-- A statement that pushes a value. -/
def pushing (path : List Part) (value : Expr) : Statement :=
  .expression (.call (spelling.place (.push :: path))
    (.identifier (spelling.place (.pushName :: path)) helpers.push) [.expr value])

/-- A statement that pushes a chunk of markup. -/
def pushingMarkup (path : List Part) (chunk : String) : Statement :=
  spelling.pushing helpers path (.string (spelling.place (.pushed :: path)) chunk)

/-- A function with at most one parameter. -/
def arrow (path : List Part) (parameter : Option String) (body : List Statement) : Expr :=
  .function (spelling.place (.function :: path)) ⟨parameter.toList, none⟩ (.block body)

/-- A call of a helper. -/
def calling (path : List Part) (helper : String) (arguments : List Expr) : Expr :=
  .call (spelling.place (.call :: path))
    (.identifier (spelling.place (.callName :: path)) helper) (arguments.map .expr)

mutual

/-- The statements that print branches. The alternatives of an `if` that stands before the branches
are left out. -/
def statements (path : List Part) : List Branch → List Statement
  | [] => []
  | branch :: rest =>
    match branch with
    | .node (.element tag attrs) _ =>
      spelling.pushingMarkup helpers path (Kind.element tag attrs).label ::
        (if Tag.isVoid tag then statements (.rest :: path) rest
        else
          content (.inside :: path) branch ++
            spelling.pushingMarkup helpers (.endTag :: path) ("</" ++ tag ++ ">") ::
              statements (.rest :: path) rest)
    | .node (.component reference props) _ =>
      spelling.pushing helpers path
        (spelling.calling path helpers.renderComponent
          [spelling.expr (.subject :: path) reference, spelling.expr (.props :: path) props,
            .object (spelling.place (.slots :: path)) (slots (.inside :: path) branch)]) ::
        statements (.rest :: path) rest
    | .node (.conditional test false) _ =>
      .branch (spelling.place (.branch :: path)).start (spelling.expr (.subject :: path) test)
        (.block (content (.inside :: path) branch)) (alternative (.rest :: path) rest) ::
        statements (.rest :: path) rest
    | .node (.iteration left right) _ =>
      .expression
        (spelling.calling path helpers.renderList
          [spelling.expr (.subject :: path) right,
            spelling.arrow path (some left) (content (.inside :: path) branch)]) ::
        statements (.rest :: path) rest
    | .node (.text written) _ =>
      spelling.pushingMarkup helpers path written :: statements (.rest :: path) rest
    | .node (.comment marker) _ =>
      spelling.pushingMarkup helpers path marker.label :: statements (.rest :: path) rest
    | .node .invalid _ =>
      spelling.pushing helpers path
        (.identifier (spelling.place (.pushed :: path)) (spelling.hidden path)) ::
        statements (.rest :: path) rest
    | _ => statements (.rest :: path) rest
termination_by structural forest => forest

/-- What follows the first branch of an `if` that stands before branches. -/
def alternative (path : List Part) : List Branch → Alternative
  | [] => .missing
  | branch :: rest =>
    match branch with
    | .node (.conditional test true) _ =>
      .otherwise (spelling.place (.alternative :: path)).start
        (.branch (spelling.place (.branch :: path)).start (spelling.expr (.subject :: path) test)
          (.block (content (.inside :: path) branch)) (alternative (.rest :: path) rest))
    | .node .otherwise _ =>
      .otherwise (spelling.place (.alternative :: path)).start
        (.block (content (.inside :: path) branch))
    | _ => .missing
termination_by structural forest => forest

/-- The statements that print what is under a node. -/
def content (path : List Part) : Branch → List Statement
  | .node _ children => statements path children
termination_by structural branch => branch

/-- The members of an object that print slots. -/
def members (path : List Part) : List Branch → List Member
  | [] => []
  | branch :: rest =>
    match branch with
    | .node (.slot name scope _) _ =>
      .property (spelling.place (.slot :: path)) (spelling.place (.key :: path)) (some name)
        (spelling.calling path helpers.withContext
          [spelling.arrow path scope (content (.inside :: path) branch)]) ::
        members (.rest :: path) rest
    | _ => members (.rest :: path) rest
termination_by structural forest => forest

/-- The members of an object that print the slots under a node. -/
def slots (path : List Part) : Branch → List Member
  | .node _ children => members path children
termination_by structural branch => branch

end

theorem statements_nil (path : List Part) : spelling.statements helpers path [] = [] := by
  rw [statements]

theorem alternative_nil (path : List Part) : spelling.alternative helpers path [] = .missing := by
  rw [alternative]

theorem members_nil (path : List Part) : spelling.members helpers path [] = [] := by
  rw [members]

/-- Where branches stand in a row. -/
inductive Row where
  /-- Under a node that holds content, after a node of the given kind. -/
  | content (previous : Option Kind)
  /-- Under a component. -/
  | slots

/-- A forest that is printed in a form that is read back. Tags, attributes and texts are plain, no
text follows another, void elements and leaves hold nothing, alternatives follow a conditional, and
components hold slots that are named and bound by themselves. -/
inductive Canonical : Row → List Branch → Prop where
  | nil (row : Row) : Canonical row []
  | element {previous : Option Kind} {tag attrs : String} {children rest : List Branch} :
      Tag.IsPlain tag → Token.AttributesPlain attrs → (Tag.isVoid tag → children = []) →
        Canonical (.content none) children →
          Canonical (.content (some (.element tag attrs))) rest →
            Canonical (.content previous) (.node (.element tag attrs) children :: rest)
  | text {previous : Option Kind} {content : String} {rest : List Branch} :
      Token.TextPlain content → (∀ found, previous ≠ some (.text found)) →
        Canonical (.content (some (.text content))) rest →
          Canonical (.content previous) (.node (.text content) [] :: rest)
  | comment {previous : Option Kind} (marker : Marker) {rest : List Branch} :
      Canonical (.content (some (.comment marker))) rest →
        Canonical (.content previous) (.node (.comment marker) [] :: rest)
  | invalid {previous : Option Kind} {rest : List Branch} :
      Canonical (.content (some .invalid)) rest →
        Canonical (.content previous) (.node .invalid [] :: rest)
  | conditional {previous : Option Kind} {test : String} {children rest : List Branch} :
      (∀ path, (spelling.expr path test).name? ≠ some helpers.push) →
        Canonical (.content none) children →
        Canonical (.content (some (.conditional test false))) rest →
          Canonical (.content previous) (.node (.conditional test false) children :: rest)
  | chained {earlier test : String} {chain : Bool} {children rest : List Branch} :
      Canonical (.content none) children →
        Canonical (.content (some (.conditional test true))) rest →
          Canonical (.content (some (.conditional earlier chain)))
            (.node (.conditional test true) children :: rest)
  | otherwise {earlier : String} {chain : Bool} {children rest : List Branch} :
      Canonical (.content none) children → Canonical (.content (some .otherwise)) rest →
        Canonical (.content (some (.conditional earlier chain)))
          (.node .otherwise children :: rest)
  | iteration {previous : Option Kind} (left right : String) {children rest : List Branch} :
      Canonical (.content none) children →
        Canonical (.content (some (.iteration left right))) rest →
          Canonical (.content previous) (.node (.iteration left right) children :: rest)
  | component {previous : Option Kind} (reference props : String)
      {children rest : List Branch} :
      Canonical .slots children →
        Canonical (.content (some (.component reference props))) rest →
          Canonical (.content previous) (.node (.component reference props) children :: rest)
  | slot {name : String} {scope : Option String} {children rest : List Branch} :
      name ≠ "_" → scope ≠ some "_" → Canonical (.content none) children →
        Canonical .slots rest → Canonical .slots (.node (.slot name scope none) children :: rest)

end Spelling

end IslandSlots
