import Stencil.Proofs.Printed.Dotted
import Stencil.Template.Compile

/-! References to views as they are written.

A view is referred to by a `view` element, by an element of its own, or by an
expression. Each of these passes texts and paths under names: an element in its
attributes, an expression in an object.
-/

set_option autoImplicit false

namespace Stencil

/-- The characters that mean something in markup, in delimiters or in quotes. -/
def specialChars : List Char :=
  ['"', '\'', '{', '}', '\\', '<', '&']

/-- None of them stands in a name, or between names and values. -/
theorem special_apart {mark : Char} (special : mark ∈ specialChars) :
    Token.isNameChar mark = false ∧ mark ∉ ['.', ',', ':', ' '] := by
  have apart : specialChars.all (fun mark =>
      !Token.isNameChar mark && !(List.contains ['.', ',', ':', ' '] mark)) = true := by
    decide
  simpa using List.all_eq_true.1 apart mark special

/-- A text that stands in quotes as it is, in markup and in expressions. -/
def IsPlainText (text : String) : Prop :=
  ∀ c ∈ specialChars, c ∉ text.toList

instance (text : String) : Decidable (IsPlainText text) :=
  List.decidableBAll (· ∉ text.toList) specialChars

/-- A value that is passed to a view: a text, or names to look up one after another. -/
inductive Passed where
  | text (data : String)
  | path (first : String) (others : List String)

namespace Passed

/-- Reserved words are no paths, and some words alone are no values. -/
inductive Proper : Passed → Prop where
  | text {data : String} : IsPlainText data → Proper (.text data)
  | path {first : String} {others : List String} : IsIdentifier first →
      (∀ name ∈ others, IsIdentifier name) →
      first ∉ ["true", "false", "null", "undefined", "this"] →
      (others = [] → first ∉ ["else", "unbound", "bound"]) → Proper (.path first others)

def tree : Passed → Expr
  | .text data => .literal (.string data)
  | .path first others => .path ⟨.context, .name first :: others.map .name⟩

/-- A value in an expression. -/
def written : Passed → List Char
  | .text data => '"' :: (data.toList ++ ['"'])
  | .path first others => first.toList ++ others.flatMap fun name => '.' :: name.toList

/-- A value between the quotes of an attribute. -/
def quoted : Passed → List Char
  | .text data => data.toList
  | .path first others => ['{', '{'] ++ ((path first others).written ++ ['}', '}'])

/-- The attribute of an element that has the value. -/
def toAttribute : Passed → Attribute
  | .text data => .literal (.string data)
  | .path first others => .dynamic (.ofExpr (path first others).tree)

open Token Printed Grammar

variable {first : String} {others : List String} {value : Passed}

/-- All characters of a path are those of names, or points. -/
theorem not_mem_path (isFirst : IsIdentifier first) (areOthers : ∀ name ∈ others, IsIdentifier name)
    {mark : Char} (isMark : isNameChar mark = false) (other : mark ≠ '.') :
    mark ∉ (path first others).written := by
  intro member
  rcases List.mem_append.1 member with here | later
  · exact isFirst.not_mem isMark here
  · obtain ⟨name, among, member⟩ := List.mem_flatMap.1 later
    exact (areOthers name among).not_mem isMark ((List.mem_cons.1 member).resolve_left other)

theorem not_mem_path_of_special (isFirst : IsIdentifier first)
    (areOthers : ∀ name ∈ others, IsIdentifier name) {mark : Char} (special : mark ∈ specialChars) :
    mark ∉ (path first others).written := by
  obtain ⟨isMark, apart⟩ := special_apart special
  exact not_mem_path isFirst areOthers isMark (List.ne_of_not_mem_cons apart)

/-- Of the special characters only the quotes around a text stand in an expression, -/
theorem Proper.not_mem_written (proper : value.Proper) {mark : Char} (special : mark ∈ specialChars)
    (noQuote : mark ≠ '"') : mark ∉ value.written := by
  cases proper with
  | text plain => simp [written, noQuote, plain mark special]
  | path isFirst areOthers _ _ => exact not_mem_path_of_special isFirst areOthers special

/-- and only the braces around a path in an attribute. -/
theorem Proper.not_mem_quoted (proper : value.Proper) {mark : Char} (special : mark ∈ specialChars)
    (noOpen : mark ≠ '{') (noClose : mark ≠ '}') : mark ∉ value.quoted := by
  cases proper with
  | text plain => exact plain mark special
  | path isFirst areOthers _ _ =>
      simp [quoted, noOpen, noClose, not_mem_path_of_special isFirst areOthers special]

/-- The source of a path is its printed form. -/
theorem text_path (first : String) (others : List String) :
    (path first others).tree.text.toList = (path first others).written :=
  text_names first others

theorem exists_operand_path (isFirst : IsIdentifier first)
    (areOthers : ∀ name ∈ others, IsIdentifier name)
    (unreserved : first ∉ ["true", "false", "null", "undefined", "this"]) (depth : Nat) :
    ∃ tokens, Spelled (path first others).written tokens ∧
      OperandOf (nested depth).conditional tokens (path first others).tree := by
  have each (name : String) (among : name ∈ others) := (areOthers name among).isName
  have named : Path.Named ⟨.context, (first :: others).map .name⟩ :=
    named_names isFirst.isName fun name among => by rw [isWord, each name among, Bool.true_or]
  have apart : others.IsChain fun name next => joins name next = false :=
    (List.pairwise_of_forall_mem_list fun name among next _ => joins_of_isName (each name among) next).isChain
  have fits : Path.Fits depth ⟨.context, (first :: others).map .name⟩ :=
    ⟨starts_name ⟨isFirst, unreserved⟩ _, (apart_names_cons isFirst.isName).2 apart,
      fun index member => absurd member index_notMem_names⟩
  obtain ⟨tokens, spelled, derived⟩ := exists_path named fits
    fun index member => absurd member index_notMem_names
  refine ⟨tokens, fun rest closes => ?_, derived.operand⟩
  rw [← text_path]
  exact spelled rest closes.endsPath

/-- A value reads as an operand. -/
theorem Proper.exists_operand (proper : value.Proper) (depth : Nat) :
    ∃ tokens, Spelled value.written tokens ∧ OperandOf (nested depth).conditional tokens value.tree := by
  cases proper with
  | @text data plain =>
      have slash : '\\' ∉ data.toList := plain '\\' (by decide)
      have mark : '"' ∉ data.toList := plain '"' (by decide)
      have stands := stringText_quoted slash
      rw [String.ofList_toList] at stands
      refine ⟨[.string (String.ofList ('"' :: (data.toList ++ ['"'])))], fun rest _ => ?_, ?_⟩
      · rw [written, List.cons_append, List.append_assoc, List.singleton_append, lex_quoted slash mark]
        rfl
      · have same : (Passed.text data).tree = .literal (.string (stringText _)) :=
          congrArg (fun data => Expr.literal (.string data)) stands.symm
        rw [same]
        exact .string
  | path isFirst areOthers unreserved _ => exact exists_operand_path isFirst areOthers unreserved depth

/-- An operand by itself stands wherever a conditional does. -/
theorem conditional_of_operand {depth : Nat} {tokens : List Token} {tree : Expr}
    (operand : OperandOf (nested depth).conditional tokens tree) :
    (nested (depth + 2)).conditional tokens tree :=
  conditional_of_unary (.operand operand)

end Passed

namespace Reference

/-- The names and values of a reference. -/
abbrev Entries := List (String × Passed)

/-- Distinct names, which are identifiers, and values that can be written. -/
structure Proper (entries : Entries) : Prop where
  distinct : (entries.map (·.1)).Nodup
  named : ∀ entry ∈ entries, IsIdentifier entry.1
  valued : ∀ entry ∈ entries, entry.2.Proper

/-- What the view is given. -/
def bag (entries : Entries) : Bag :=
  ⟨entries.map fun entry => (entry.1, .ofAttribute entry.2.toAttribute)⟩

def attributeText (entry : String × Passed) : List Char :=
  ' ' :: (entry.1.toList ++ '=' :: '"' :: (entry.2.quoted ++ ['"']))

/-- An empty element of a tag. -/
def element (tag : String) (entries : Entries) : String :=
  String.ofList ('<' :: (tag.toList ++ (entries.flatMap attributeText ++
    '>' :: '<' :: '/' :: (tag.toList ++ ['>']))))

/-- A `view` element, which has the name of the view before all else. -/
def viewElement (name : String) (entries : Entries) : String :=
  element "view" (("name", .text name) :: entries)

def memberText (entry : String × Passed) : List Char :=
  entry.1.toList ++ ':' :: ' ' :: entry.2.written

/-- The members of an object, with commas between them. -/
def membersText (entries : Entries) : List Char :=
  [',', ' '].intercalate (entries.map memberText)

/-- What is after the word `view` in an expression: the name, and the object. -/
def arguments (name : String) (entries : Entries) : List Char :=
  '"' :: (name.toList ++ '"' :: ',' :: ' ' :: '{' :: (membersText entries ++ ['}']))

/-- A `view` expression between its delimiters. -/
def expression (name : String) (entries : Entries) : String :=
  String.ofList (['{', '{', 'v', 'i', 'e', 'w', ' '] ++ (arguments name entries ++ ['}', '}']))

end Reference

end Stencil
