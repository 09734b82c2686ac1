import IslandSlots.Text.Blank

/-!
# Templates

The nodes of a template and what can be wrong with one. Tags carry the places where they stand in
the file, as bytes from its start.
-/

namespace IslandSlots

/-- A range of bytes of a file. -/
structure Span where
  /-- How many bytes come before it. -/
  start : Nat
  /-- How many bytes come before its end. -/
  stop : Nat
  deriving DecidableEq, Repr

/-- What an attribute of a template stands for. -/
inductive AttributeKind where
  /-- A plain value. -/
  | plain
  /-- An expression bound to a name. -/
  | bind
  /-- What happens on an event. -/
  | on
  /-- An instruction such as a loop. -/
  | directive
  deriving DecidableEq, Repr

/-- An attribute in a template. -/
structure TemplateAttribute where
  /-- What it stands for. -/
  kind : AttributeKind
  /-- Its name without the mark of its kind. -/
  name : String
  /-- Its value, if it has one. -/
  value : Option String
  deriving DecidableEq, Repr

/-- An opening tag in a template. -/
structure OpeningTag where
  /-- The name of the element. -/
  tag : String
  /-- The attributes in order. -/
  attributes : List TemplateAttribute
  /-- Whether the element is nothing but this tag. -/
  selfClosing : Bool
  /-- Where the tag stands. -/
  span : Span
  deriving DecidableEq, Repr

/-- The first attribute of a kind with a name. -/
def OpeningTag.find? (opening : OpeningTag) (kind : AttributeKind) (name : String) :
    Option TemplateAttribute :=
  opening.attributes.find? fun attr => attr.kind == kind && attr.name == name

/-- The value of the first attribute of a kind with a name. -/
def OpeningTag.value? (opening : OpeningTag) (kind : AttributeKind) (name : String) :
    Option String :=
  (opening.find? kind name).bind TemplateAttribute.value

/-- A node of a template. -/
inductive TemplateNode where
  /-- An element, and where its closing tag stands if it has one. -/
  | element (opening : OpeningTag) (children : List TemplateNode) (closing : Option Span)
  /-- Text between tags. -/
  | text (content : String)
  /-- An expression whose value is shown. -/
  | interpolation (expression : String)
  /-- A comment. -/
  | comment (body : String)
  deriving Repr

namespace TemplateNode

/-- Whether a node is a text of blanks only. -/
def isBlank : TemplateNode → Bool
  | .text content => Text.allBlank content
  | _ => false

/-- The nodes that are not blank. -/
def significant (nodes : List TemplateNode) : List TemplateNode :=
  nodes.filter fun node => !node.isBlank

end TemplateNode

/-- What is wrong with a template. -/
inductive TemplateFault where
  /-- A comment has no end. -/
  | unterminatedComment
  /-- A closing tag has something else than blanks before its `>`. -/
  | unterminatedClosingTag (tag : String)
  /-- A closing tag closes nothing that is open. -/
  | unmatchedClosingTag (tag : String)
  /-- An opening tag has no `>`. -/
  | unterminatedTag (tag : String)
  /-- An interpolation has no end. -/
  | unterminatedInterpolation
  /-- An element has no closing tag. -/
  | unclosed (tag : String)
  /-- A loop has no two sides. -/
  | invalidLoop (expression : String)
  deriving DecidableEq, Repr

/-- A fault in words. -/
def TemplateFault.message : TemplateFault → String
  | .unterminatedComment => "unterminated comment"
  | .unterminatedClosingTag tag => "expected `>` to close `</" ++ tag ++ "`"
  | .unmatchedClosingTag tag => "closing tag `</" ++ tag ++ ">` has no matching open tag"
  | .unterminatedTag tag => "unterminated tag `<" ++ tag ++ "`"
  | .unterminatedInterpolation => "unterminated interpolation"
  | .unclosed tag => "`<" ++ tag ++ ">` is never closed"
  | .invalidLoop expression => "invalid v-for expression `" ++ expression ++ "`"

/-- A fault of a template and the byte where it shows. -/
structure TemplateError where
  /-- What is wrong. -/
  fault : TemplateFault
  /-- How many bytes come before the place. -/
  offset : Nat
  deriving DecidableEq, Repr

/-- A fault in words, with its place. -/
def TemplateError.message (error : TemplateError) : String :=
  "invalid template markup at byte " ++ toString error.offset ++ ": " ++ error.fault.message

end IslandSlots
