import Stencil.Proofs.Marks.ValueWords
import Stencil.Proofs.Printed.RoundTrip

/-! The forms of an expression.

A source opens or continues a block, is a keyword alone, ends a block, or is a value. The marks
of one form are not those of another, and the tree is empty just where no path is written.
-/

set_option autoImplicit false

namespace Stencil

namespace ValueWord

theorem leads_of_read? {text rest : List Char} {word : ValueWord} (found : read? text = some (word, rest)) :
    Text.Leads word.symbol text rest := by
  obtain ⟨other, -, matched⟩ := List.exists_of_findSome?_eq_some found
  obtain ⟨after, stripped, same⟩ := Option.map_eq_some_iff.1 matched
  cases same
  exact Text.leads_iff.2 stripped

/-- Value words leave some of a trimmed text, as its last character is no blank. -/
theorem readAll_ne_nil {text : List Char} (trimmed : Text.Trimmed text) (filled : text ≠ []) :
    (readAll text).2 ≠ [] := by
  fun_induction readAll text with
  | case1 text absent => exact filled
  | case2 text word rest found shorter words path later ih =>
      have leads := leads_of_read? found
      have inner := ih (leads.trimmed trimmed) (leads.ne_nil trimmed)
      rwa [later] at inner

end ValueWord

namespace Marks

variable {openers : List String} {text path : List Char} {marks : Marks}

/-- No path is read from an ending, from a keyword alone and where nothing is written. -/
theorem Form.path_eq_nil_iff (form : Form openers text marks path) (trimmed : Text.Trimmed text) :
    path = [] ↔ marks.isEnd = true ∨ String.ofList text ∈ ["", "else", "unbound", "bound"] := by
  cases form with
  | opener opens =>
      have leads := (Text.firstWord?_eq_some_iff.1 opens).leads
      have alone := not_alone_of_any_isBlank leads.any_isBlank
      exact iff_of_false (leads.ne_nil trimmed) (not_or.2 ⟨nofun, alone⟩)
  | aliased opens split =>
      have leads := (Text.firstWord?_eq_some_iff.1 opens).leads
      have names := Text.namesAlias_of_splitAlias? split
      have alone := not_alone_of_any_isBlank leads.any_isBlank
      exact iff_of_false names.path.1 (not_or.2 ⟨nofun, alone⟩)
  | word _ alone => exact iff_of_true rfl (.inr (List.mem_cons_of_mem "" alone))
  | ending => exact iff_of_true rfl (.inl rfl)
  | value _ alone _ =>
      cases text with
      | nil => exact iff_of_true (by rw [ValueWord.readAll_of_none rfl]) (.inr List.mem_cons_self)
      | cons c rest =>
          have some : String.ofList (c :: rest) ≠ "" := by simp [← String.toList_inj]
          refine iff_of_false (ValueWord.readAll_ne_nil trimmed (by simp)) (not_or.2 ⟨nofun, ?_⟩)
          exact fun member => alone ((List.mem_cons.1 member).resolve_left some)

end Marks

namespace Expression

theorem pathTree_eq_empty_iff {path : List Char} {tree : Expr} (parsed : pathTree path = .ok tree) :
    tree = .empty ↔ path = [] := by
  constructor
  · rintro rfl
    by_contra filled
    rw [pathTree_of_ne_nil filled] at parsed
    cases Expr.formed_of_parse parsed
  · rintro rfl
    exact (Except.ok.inj parsed).symm

/-- Every expression is of one form: a keyword comes without the marks of values, an ending has a
keyword, no alias and no tree, an alias stands at a keyword that ends nothing, and only endings,
words alone and the empty source are without a tree. -/
theorem parse_exclusive (blocks : BlockMap) {source : String} {expression : Expression}
    (parsed : parse blocks.openers source = .ok expression) :
    (expression.marks.keyword.isSome = true → expression.marks.unescaped = false ∧
      expression.marks.binding = none ∧ expression.marks.isView = false) ∧
    (expression.marks.isEnd = true → expression.marks.keyword.isSome = true ∧
      expression.marks.aliasName = none ∧ expression.expr = .empty) ∧
    (expression.marks.aliasName.isSome = true → expression.marks.keyword.isSome = true ∧
      expression.marks.isEnd = false) ∧
    (expression.expr = .empty ↔ expression.marks.isEnd = true ∨
      trimmed source ∈ ["", "else", "unbound", "bound"]) := by
  obtain ⟨path, read, tree⟩ := parse_eq_ok_iff.1 parsed
  have form := Marks.form_read blocks.openers (Text.trimmed_trim source.toList)
  rw [read] at form
  obtain ⟨value, ending, named⟩ := form.exclusive
  have empty := (pathTree_eq_empty_iff tree).trans (form.path_eq_nil_iff (Text.trimmed_trim _))
  refine ⟨value, fun ends => ?_, named, empty⟩
  obtain ⟨keyed, unnamed⟩ := ending ends
  exact ⟨keyed, unnamed, empty.2 (.inl ends)⟩

set_option maxRecDepth 20000 in
theorem parse_exclusive_loop :
    let loop : Expression := ⟨.ofName "items",
      { Marks.opened .each "each items as #item" with aliasName := some "#item" }⟩
    parse BlockMap.builtins.openers "each items as #item " = .ok loop ∧
      (loop.marks.unescaped = false ∧ loop.marks.binding = none ∧ loop.marks.isView = false) ∧
      loop.marks.isEnd = false ∧ loop.expr ≠ .empty := by
  intro loop
  have parsed : parse BlockMap.builtins.openers "each items as #item " = .ok loop := by cbv
  obtain ⟨value, -, named, empty⟩ := parse_exclusive BlockMap.builtins parsed
  refine ⟨parsed, value rfl, (named rfl).2, fun none => ?_⟩
  have whole : trimmed "each items as #item " = "each items as #item" := by cbv
  rw [whole] at empty
  rcases empty.1 none with ends | alone
  · cases ends
  · exact absurd alone (by decide)

end Expression

end Stencil
