/-! The events of markup, and the elements with rules of their own. -/

set_option autoImplicit false

namespace Stencil

/-- What stands in markup, in the order of the source. The texts of tags and
comments are as written, and the names of elements in lower case. -/
inductive Event where
  | startTag (tag name : String) (attributes : List (String × Option String))
  | endTag (tag name : String)
  | text (data : String)
  | comment (tag data : String)
  | other (tag : String)
  deriving DecidableEq, Repr

namespace Markup

/-- Elements without content and without an end tag. -/
def voidElements : List String :=
  ["area", "base", "br", "col", "command", "embed", "hr", "img", "input", "keygen", "link", "meta",
   "param", "source", "track", "wbr"]

def isVoid (name : String) : Bool :=
  voidElements.contains name

/-- Elements whose content is text up to their end tag. -/
def rawTextElements : List String :=
  ["script", "style"]

def isRawText (name : String) : Bool :=
  rawTextElements.contains name

/-- Whether a comment is a conditional one: `<!--[` at its start and `]-->` at
its end, without sharing a character. -/
def isConditional (tag : String) : Bool :=
  let text := tag.toList
  let opening := ['<', '!', '-', '-', '[']
  let closing := [']', '-', '-', '>']
  opening.isPrefixOf text && closing.isSuffixOf text && opening.length + closing.length ≤ text.length

end Markup

end Stencil
