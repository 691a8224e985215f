import Stencil.Proofs.Entity
import Stencil.Proofs.Events
import Stencil.Proofs.Fragment
import Stencil.Proofs.Walk

/-! Templates written as markup.

Every step of the walk is written on its own: tags as tags, everything else
between delimiters or as text, with character references where markup needs them.
A template can be written if its texts, names and sources can be told from the
markup around them.
-/

set_option autoImplicit false

namespace Stencil

namespace Attribute

/-- Attributes that hold other values are left without one. -/
def written : Attribute → StartTag.WrittenValue
  | .literal (.string text) => .quoted '"' (Entity.encode true text.toList)
  | .dynamic expression =>
      .quoted '"' (Entity.encode true (Fragment.delimited expression.marks.source).written)
  | _ => .absent

end Attribute

namespace Visit

/-- What a step that is not a tag puts into the text between tags. -/
def fragment? : Visit → Option Fragment
  | .text data => some (.literal data)
  | .expression value => some (.delimited value.marks.source)
  | .otherwise => some (.delimited "else")
  | .ending _ => some (.delimited "/")
  | _ => none

def entries (attributes : Dict Attribute) : List StartTag.WrittenAttribute :=
  attributes.entries.map fun entry => ⟨entry.1.toList, entry.2.written⟩

def written : Visit → List Char
  | .start name attributes => Markup.writtenStart name.toList (entries attributes) false
  | .finish name => Markup.writtenEnd name.toList
  | .comment data => ['<', '!', '-', '-'] ++ (data.toList ++ ['-', '-', '>'])
  | visit => Entity.encode false ((visit.fragment?.map Fragment.written).getD [])

/-- The piece that a written step is read as. -/
def piece : Visit → Piece
  | .start name attributes => .start name attributes
  | .finish name => .finish (String.ofList (Markup.writtenEnd name.toList)) name
  | .text data => .text data
  | .expression value => .expression value
  | .comment data => .comment data
  | .otherwise => .expression .bareElse
  | .ending _ => .expression .bareEnd

end Visit

/-- A template written as markup. -/
def render (nodes : List Node) : String :=
  String.ofList ((Node.walkAll nodes).flatMap Visit.written)

/-- A lower case letter, and then lower case letters, digits and hyphens. -/
def IsTagName (name : String) : Prop :=
  ∃ first others, name.toList = first :: others ∧ first.isLower = true ∧
    ∀ c ∈ others, c.isLower = true ∨ c.isDigit = true ∨ c = '-'

namespace Compiler

variable (compiler : Compiler)

/-- The source of an expression stands between delimiters as it is. -/
structure Spells (expression : Expression) : Prop where
  trimmed : Text.trim expression.marks.source.toList = expression.marks.source.toList
  filled : expression.marks.source ≠ ""
  noOpen : '{' ∉ expression.marks.source.toList
  noClose : '}' ∉ expression.marks.source.toList
  parsed : compiler.expression expression.marks.source = .ok expression

/-- No value, a text, or one value expression that is not a literal. -/
inductive WritesValue : Attribute → Prop where
  | absent : WritesValue (.literal (.bool true))
  | text {text : String} : '{' ∉ text.toList → WritesValue (.literal (.string text))
  | dynamic {expression : Expression} : compiler.Spells expression → expression.IsValue →
      (∀ value, expression.expr ≠ .literal value) → WritesValue (.dynamic expression)

structure WritesAttributes (attributes : Dict Attribute) : Prop where
  distinct : attributes.keys.Nodup
  named : ∀ entry ∈ attributes.entries, StartTag.ProperName entry.1.toList
  valued : ∀ entry ∈ attributes.entries, compiler.WritesValue entry.2

mutual
/-- Nodes whose rendering can be read back. Two texts never stand side by side. -/
inductive Writes : List Node → Prop where
  | nil : Writes []
  -- A text next to another would be read as one with it.
  | text {data : String} {rest : List Node} : data ≠ "" → '{' ∉ data.toList →
      (∀ other after, rest ≠ .text other :: after) → Writes rest → Writes (.text data :: rest)
  | value {expression : Expression} {rest : List Node} : compiler.Spells expression →
      expression.IsValue → Writes rest → Writes (.dynamic expression :: rest)
  | void {name : String} {attributes : Dict Attribute} {rest : List Node} :
      Markup.isVoid name = true → compiler.WritesAttributes attributes → Writes rest →
      Writes (.element ⟨name, attributes, [], true⟩ :: rest)
  | element {name : String} {attributes : Dict Attribute} {content rest : List Node} :
      Markup.isVoid name = false → IsTagName name → name ∉ ["view", "script", "style"] →
      compiler.WritesAttributes attributes → Writes content → Writes rest →
      Writes (.element ⟨name, attributes, content, false⟩ :: rest)
  | conditional {opener : Expression} {content rest : List Node} {branches : List Branch} :
      compiler.Spells opener → opener.Opens compiler.blocks .conditional → Writes content →
      WritesBranches branches → Writes rest →
      Writes (.conditional (.ofList (⟨opener, content⟩ :: branches)) :: rest)
  | each {opener : Expression} {content rest : List Node} {otherwise : Option (List Node)} :
      compiler.Spells opener → opener.Opens compiler.blocks .each → Writes content →
      WritesElse otherwise → Writes rest → Writes (.each opener content otherwise :: rest)
  | block {opener : Expression} {content rest : List Node} :
      compiler.Spells opener → opener.Opens compiler.blocks .generic → Writes content →
      Writes rest → Writes (.block opener content :: rest)

inductive WritesBranches : List Branch → Prop where
  | nil : WritesBranches []
  | cons {guard : Expression} {content : List Node} {rest : List Branch} :
      compiler.Spells guard → guard.Continues → Writes content → WritesBranches rest →
      WritesBranches (⟨guard, content⟩ :: rest)

inductive WritesElse : Option (List Node) → Prop where
  | none : WritesElse none
  | some {content : List Node} : Writes content → WritesElse (some content)
end

end Compiler

end Stencil
