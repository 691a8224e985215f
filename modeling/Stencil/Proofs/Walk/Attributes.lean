import Stencil.Proofs.Walk

/-! What the attributes of an element are of what its start tag has written.

Every name stands once, where it is written first, with what its last value is read as. A
value is read as a text is, and its template is walked as it was read.
-/

set_option autoImplicit false

namespace Stencil

open List (Forall₂)

section

variable {blocks : BlockMap}

/-- One visit is to one piece. -/
theorem exists_piece_of_recalls {visit : Visit} {pieces : List Piece}
    (recalls : Forall₂ Recalls [visit] pieces) : ∃ piece, Recalls visit piece ∧ pieces = [piece] := by
  cases recalls with
  | cons here others =>
      cases others
      exact ⟨_, here, rfl⟩

/-- Only one piece makes one text, or one value. -/
theorem Derives.two_le_length {pieces : List Piece} {nodes : List Node}
    (derived : Derives blocks pieces nodes)
    (inline : ∀ piece ∈ pieces, (∃ data, piece = .text data) ∨ ∃ expression, piece = .expression expression)
    (filled : nodes ≠ []) (noText : ∀ data, nodes ≠ [.text data])
    (noValue : ∀ expression, nodes ≠ [.dynamic expression]) : 2 ≤ pieces.length := by
  -- More nodes come from more pieces.
  have more {rest : List Piece} {others : List Node} (derives : Derives blocks rest others)
      (further : others ≠ []) : 1 ≤ rest.length := by
    cases derives with
    | nil => exact absurd rfl further
    | _ => simp
  cases derived with
  | nil => exact absurd rfl filled
  | text rest => exact Nat.succ_le_succ (more rest fun none => noText _ (by rw [none]))
  | value _ rest => exact Nat.succ_le_succ (more rest fun none => noValue _ (by rw [none]))
  | comment | void => simpa using inline _ List.mem_cons_self
  | element => simpa using inline _ List.mem_cons_self
  | conditional | each | block => simp only [List.length_cons, List.length_append]; omega

end

namespace Compiler

variable (compiler : Compiler)

/-- What a value is read as: without a value an attribute is true, and an empty one is the empty
text. Any other is its text, its constant or its expression, if it has one piece, and else a
template that is walked as its pieces come. -/
inductive ReadsAs : Option String → Attribute → Prop where
  | bare : ReadsAs none (.literal (.bool true))
  | empty : ReadsAs (some "") (.literal (.string ""))
  | text {value data : String} :
      compiler.textPieces (unescapeEntities value) = .ok [.text data] →
      ReadsAs (some value) (.literal (.string data))
  | literal {value : String} {expression : Expression} {constant : Value} :
      compiler.textPieces (unescapeEntities value) = .ok [.expression expression] →
      expression.expr = .literal constant → ReadsAs (some value) (.literal constant)
  | dynamic {value : String} {expression : Expression} :
      compiler.textPieces (unescapeEntities value) = .ok [.expression expression] →
      (∀ constant, expression.expr ≠ .literal constant) →
      ReadsAs (some value) (.dynamic expression)
  | template {value : String} {pieces : List Piece} {content : List Node} :
      compiler.textPieces (unescapeEntities value) = .ok pieces → 2 ≤ pieces.length →
      Forall₂ Recalls (Node.walkAll content) pieces → ReadsAs (some value) (.template content)

/-- The attributes that are written, by their names in the order of their first places, each as
its last value. -/
structure Collects (written : List (String × Option String)) (attributes : Dict Attribute) : Prop where
  keys : attributes.keys = (written.map (·.1)).eraseDups
  values : ∀ name, Option.Rel compiler.ReadsAs (written.reverse.lookup name) (attributes.find? name)

/-- No expression of a text refers to a view. -/
def ViewlessText (text : String) : Prop :=
  ∀ pieces, compiler.textPieces (unescapeEntities text) = .ok pieces →
    ∀ expression, .expression expression ∈ pieces → expression.marks.isView = false

variable {compiler} {context : ViewContext}

/-- A value that is not empty. -/
theorem readsAs_of_attributeValue {name value : String} {result : Attribute}
    (viewless : compiler.ViewlessText value)
    (compiled : compiler.attributeValue context name value = .ok result) :
    compiler.ReadsAs (some value) result := by
  obtain ⟨content, accepted, made⟩ := bind_eq_ok_iff.1 compiled
  obtain ⟨pieces, read⟩ := textPieces_of_compileString accepted
  rw [compileString_eq read, addPieces_finish_eq_ok_iff (plain_of_textPieces read (viewless pieces read))]
    at accepted
  have recalls := accepted.recalls
  -- What the attribute is, is seen from the nodes.
  unfold attributeOf? at made
  split at made
  · rename_i passed found
    obtain rfl := Except.ok.inj made
    split at found
    · cases found
    · obtain rfl := Option.some.inj found
      obtain ⟨_, here, rfl⟩ := exists_piece_of_recalls recalls
      cases here
      exact .text read
    · obtain ⟨_, here, rfl⟩ := exists_piece_of_recalls recalls
      cases here
      split at found
      · rename_i isConstant
        obtain rfl := Option.some.inj found
        exact .literal read isConstant
      · rename_i noConstant
        obtain rfl := Option.some.inj found
        exact .dynamic read noConstant
    · rename_i filled noText noValue
      obtain rfl := Option.some.inj found
      have inline piece (member : piece ∈ pieces) := text_or_expression_of_mem_textPieces read member
      exact .template read (accepted.two_le_length inline filled noText noValue) recalls
  · cases made

theorem readsAs_of_attributeFor {name : String} {value : Option String} {result : Attribute}
    (viewless : ∀ text, value = some text → compiler.ViewlessText text)
    (compiled : compiler.attributeFor context name value = .ok result) :
    compiler.ReadsAs value result := by
  cases value with
  | none =>
      obtain rfl := Except.ok.inj compiled
      exact .bare
  | some text =>
      simp only [attributeFor] at compiled
      split at compiled
      · rename_i isEmpty
        obtain rfl := Except.ok.inj compiled
        obtain rfl : text = "" := by simpa using isEmpty
        exact .empty
      · exact readsAs_of_attributeValue (viewless text rfl) compiled

/-- One more attribute: a name that is there keeps its place, and takes the value. -/
theorem Collects.insert {written : List (String × Option String)} {attributes : Dict Attribute}
    {name : String} {value : Option String} {result : Attribute}
    (collects : compiler.Collects written attributes) (reads : compiler.ReadsAs value result) :
    compiler.Collects (written ++ [(name, value)]) (attributes.insert name result) where
  keys := by
    have member : name ∈ attributes.keys ↔ name ∈ written.map (·.1) := by
      rw [collects.keys, List.mem_eraseDups]
    have single : [name].eraseDups = [name] := by simp [List.eraseDups_cons]
    rw [List.map_append, List.map_singleton, List.eraseDups_append, ← collects.keys]
    refine (Dict.keys_put name result attributes.entries).trans ?_
    split
    · rename_i among
      simp [List.removeAll, member.1 among, Dict.keys]
    · rename_i fresh
      have absent : name ∉ written.map (·.1) := fun among => fresh (member.2 among)
      simp [List.removeAll, absent, single, Dict.keys]
  values other := by
    rw [List.reverse_append, List.reverse_singleton, List.singleton_append, List.lookup_cons,
      Dict.find?_insert]
    cases other == name with
    | true => exact .some reads
    | false => exact collects.values other

/-- The attributes of a start tag, as a whole. -/
theorem collects_of_attributes {written : List (String × Option String)} {attributes : Dict Attribute}
    (viewless : ∀ name value, (name, some value) ∈ written → compiler.ViewlessText value)
    (compiled : compiler.attributes context written = .ok attributes) :
    compiler.Collects written attributes := by
  unfold Compiler.attributes at compiled
  induction written using List.reverseRecOn generalizing attributes with
  | nil =>
      obtain rfl := Except.ok.inj compiled
      exact ⟨rfl, fun _ => .none⟩
  | append_singleton written entry ih =>
      obtain ⟨name, value⟩ := entry
      rw [List.foldlM_append] at compiled
      obtain ⟨before, others, last⟩ := bind_eq_ok_iff.1 compiled
      rw [List.foldlM_cons] at last
      obtain ⟨after, inserted, same⟩ := bind_eq_ok_iff.1 last
      obtain ⟨result, here, put⟩ := bind_eq_ok_iff.1 inserted
      obtain rfl := Except.ok.inj same
      obtain rfl := Except.ok.inj put
      have earlier := ih (fun name value member => viewless name value (List.mem_append_left _ member)) others
      refine earlier.insert (readsAs_of_attributeFor (fun text isText => ?_) here)
      exact viewless name text (by simp [isText])

end Compiler

end Stencil
