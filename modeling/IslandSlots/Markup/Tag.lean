/-!
# Classes of tags

Which elements hold no content, which hold raw text, and which may leave out their end tag.
-/

namespace IslandSlots.Tag

/-- Elements that have no content and no end tag. -/
def void : List String :=
  ["area", "base", "br", "col", "embed", "hr", "img", "input", "link", "meta", "param", "source",
    "track", "wbr"]

/-- Elements whose content is text up to their end tag. -/
def rawText : List String :=
  ["script", "style"]

/-- Elements whose end tag may be left out: the end of the element around them ends them. -/
def optionalEnd : List String :=
  ["li", "dt", "dd", "p", "rt", "rp", "optgroup", "option", "colgroup", "thead", "tbody",
    "tfoot", "tr", "td", "th"]

/-- Whether an element has no content and no end tag. -/
def isVoid (tag : String) : Bool :=
  void.contains tag

/-- Whether the content of an element is raw text. -/
def isRawText (tag : String) : Bool :=
  rawText.contains tag

/-- Whether an element may leave out its end tag. -/
def hasOptionalEnd (tag : String) : Bool :=
  optionalEnd.contains tag

/-- Whether a character may stand in the name of a tag. -/
def isNameChar (c : Char) : Bool :=
  c.isAlphanum || c == '-' || c == ':'

end IslandSlots.Tag
