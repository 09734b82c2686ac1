import IslandSlots.Proofs.Template.Standing
import Mathlib.Data.List.Infix

/-!
# Printed templates

A forest written out as a template: each attribute with the short mark of its kind and its value in
double quotes, each element that is more than its opening tag with a closing tag. A forest is
canonical when nothing of it runs into what is printed next to it and every name is the one that is
read back.
-/

namespace IslandSlots

open Text

/-! ## Tags -/

/-- What is printed in front of the name of an attribute. -/
def AttributeKind.mark : AttributeKind → String
  | .plain => ""
  | .bind => ":"
  | .on => "@"
  | .directive => "v-"

/-- Whether a name is read back behind the mark of a kind. -/
def AttributeKind.Keeps : AttributeKind → List Char → Prop
  | .plain, name =>
    name ≠ [] ∧ name.head? ≠ some ':' ∧ name.head? ≠ some '@' ∧ name.head? ≠ some '#' ∧
      ¬['v', '-'] <+: name
  | .directive, name =>
    TemplateAttribute.directiveName name = name ∧
      ¬['b', 'i', 'n', 'd', ':'] <+: name ∧ ¬['o', 'n', ':'] <+: name
  | _, _ => True

instance : (kind : AttributeKind) → (name : List Char) → Decidable (kind.Keeps name)
  | .plain, _ => inferInstanceAs (Decidable (_ ∧ _))
  | .directive, _ => inferInstanceAs (Decidable (_ ∧ _))
  | .bind, _ => inferInstanceAs (Decidable True)
  | .on, _ => inferInstanceAs (Decidable True)

namespace TemplateAttribute

/-- The name with the mark of the kind. -/
def marked (attr : TemplateAttribute) : String :=
  attr.kind.mark ++ attr.name

/-- Attributes as text. -/
def printAll : List TemplateAttribute → String
  | [] => ""
  | attr :: more =>
    " " ++ attr.marked ++ (attr.value.elim "" fun value => "=\"" ++ value ++ "\"") ++ printAll more

/-- An attribute that is read back from what is printed for it. -/
structure Canonical (attr : TemplateAttribute) : Prop where
  /-- The name can be read. -/
  named : ∀ b ∈ bytes attr.name, isNameByte b
  /-- The kind and the name are told from the mark and the name. -/
  kept : attr.kind.Keeps attr.name.toList
  /-- The value has no quote. -/
  plain : ∀ value ∈ attr.value, '"' ∉ value.toList

end TemplateAttribute

namespace OpeningTag

/-- An opening tag as text. -/
def print (opening : OpeningTag) : String :=
  "<" ++ opening.tag ++ TemplateAttribute.printAll opening.attributes ++
    if opening.selfClosing then "/>" else ">"

/-- An opening tag that is read back from what is printed for it. -/
structure Canonical (opening : OpeningTag) : Prop where
  /-- The name of the element begins with a letter. -/
  begins : (bytes opening.tag).head?.any TemplatePiece.isLetter
  /-- It can be read. -/
  named : ∀ b ∈ bytes opening.tag, TemplatePiece.isTagByte b
  /-- The attributes are read back. -/
  attributes : ∀ attr ∈ opening.attributes, attr.Canonical
  /-- An element that has no closing tag by its name has none. -/
  void : TemplatePiece.isVoid opening.tag → opening.selfClosing

end OpeningTag

/-! ## Forests -/

namespace TemplateNode

mutual

/-- A node as text. Blanks `gap` stand at the two ends of an interpolation. -/
def print (gap : String) : TemplateNode → String
  | .element opening children _ =>
    opening.print ++
      if opening.selfClosing then "" else printAll gap children ++ "</" ++ opening.tag ++ ">"
  | .text content => content
  | .interpolation expression => "\x7b\x7b" ++ gap ++ expression ++ gap ++ "\x7d\x7d"
  | .comment body => "<!--" ++ body ++ "-->"

/-- Nodes as text. -/
def printAll (gap : String) : List TemplateNode → String
  | [] => ""
  | node :: nodes => print gap node ++ printAll gap nodes

end

/-- Whether a node is a text. -/
def isText : TemplateNode → Bool
  | .text _ => true
  | _ => false

/-- Whether a node is an interpolation. -/
def isInterpolation : TemplateNode → Bool
  | .interpolation _ => true
  | _ => false

/-- A text in which no tag, comment or interpolation begins. -/
structure Quiet (content : List Char) : Prop where
  /-- No interpolation begins. -/
  braces : ¬['\x7b', '\x7b'] <:+: content
  /-- No tag and no comment begins. -/
  angles : ∀ c ∈ content, ['<', c] <:+: content → c ≠ '/' ∧ c ≠ '!' ∧ c.isAlpha = false

/-- Whether no markup begins in a text can be told character by character. -/
instance (content : List Char) : Decidable (Quiet content) :=
  decidable_of_bool (!decide (['\x7b', '\x7b'] <:+: content) && content.all fun c =>
      !decide (['<', c] <:+: content) || !(c == '/' || c == '!' || c.isAlpha)) <| by
    simp only [Bool.and_eq_true, Bool.not_eq_true', decide_eq_false_iff_not, List.all_eq_true,
      Bool.or_eq_true, Bool.or_eq_false_iff, beq_eq_false_iff_ne, and_assoc]
    exact ⟨fun ⟨braces, angles⟩ => ⟨braces, by simpa only [imp_iff_not_or] using angles⟩,
      fun quiet => ⟨quiet.braces, by simpa only [imp_iff_not_or] using quiet.angles⟩⟩

/-- Nodes that are read back from what is printed for them. `top` tells whether they are the roots
of a forest. -/
inductive Canonical (gap : String) : Bool → List TemplateNode → Prop where
  | nil (top : Bool) : Canonical gap top []
  | element {top : Bool} {opening : OpeningTag} {children nodes : List TemplateNode}
      (closing : Option Span) :
      opening.Canonical → (opening.selfClosing → children = []) → Canonical gap false children →
        Canonical gap top nodes → Canonical gap top (.element opening children closing :: nodes)
  | text {top : Bool} {content : String} {nodes : List TemplateNode} :
      Quiet content.toList → (allBlank content → content = " " ∧ top = false) →
        ¬nodes.head?.any isText →
          (nodes.head?.any isInterpolation → content.toList.getLast? ≠ some '\x7b') →
            Canonical gap top nodes → Canonical gap top (.text content :: nodes)
  | interpolation {top : Bool} {expression : String} {nodes : List TemplateNode} :
      trimmed expression = expression → ¬['\x7d', '\x7d'] <:+: expression.toList →
        (gap = "" → expression.toList.getLast? ≠ some '\x7d') → Canonical gap top nodes →
          Canonical gap top (.interpolation expression :: nodes)
  | comment {top : Bool} {body : String} {nodes : List TemplateNode} :
      ¬['-', '-', '>'] <:+: body.toList → Canonical gap top nodes →
        Canonical gap top (.comment body :: nodes)

/-- Nodes are others up to the places of their tags, and exactly the elements that are more than
their opening tags have a closing tag. -/
inductive ReadAs : List TemplateNode → List TemplateNode → Prop where
  | nil : ReadAs [] []
  | element {tag : String} {attributes : List TemplateAttribute} {selfClosing : Bool}
      {span other : Span} {closing unread : Option Span}
      {children others nodes more : List TemplateNode} :
      closing.isSome = !selfClosing → ReadAs children others → ReadAs nodes more →
        ReadAs (.element ⟨tag, attributes, selfClosing, span⟩ children closing :: nodes)
          (.element ⟨tag, attributes, selfClosing, other⟩ others unread :: more)
  | leaf {node : TemplateNode} {nodes more : List TemplateNode} :
      node.isLeaf → ReadAs nodes more → ReadAs (node :: nodes) (node :: more)

end TemplateNode

end IslandSlots
