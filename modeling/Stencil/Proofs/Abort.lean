import Mathlib
import Stencil.Proofs.Fragment.Cut
import Stencil.Proofs.Gather
import Stencil.Template.Compile

/-! When compiling ends at a cut inside a character.

Nothing but splitting a text can end so. A text does where it has such a cut and all
of its fragments before that are taken; markup does in a text or in an attribute
value, all before it being taken.
-/

set_option autoImplicit false

namespace Stencil

/-- The work ended at a cut inside a character. -/
def Aborts {α : Type} (result : Except Failure α) : Prop :=
  ∃ failure text, result = .error failure ∧ failure.cause = .cutCharacter text

section

variable {α β σ : Type}

@[simp] theorem not_aborts_ok (value : α) : ¬ Aborts (.ok value) := by
  rintro ⟨failure, text, same, -⟩
  cases same

@[simp] theorem not_aborts_pure (value : α) : ¬ Aborts (pure value) :=
  not_aborts_ok value

theorem aborts_error_iff {failure : Failure} :
    Aborts (.error failure : Except Failure α) ↔ ∃ text, failure.cause = .cutCharacter text := by
  constructor
  · rintro ⟨other, text, same, cause⟩
    cases same
    exact ⟨text, cause⟩
  · rintro ⟨text, cause⟩
    exact ⟨failure, text, rfl, cause⟩

@[simp] theorem aborts_of_iff {cause : Cause} :
    Aborts (.error (.of cause) : Except Failure α) ↔ ∃ text, cause = .cutCharacter text :=
  aborts_error_iff

@[simp] theorem aborts_bind_iff {first : Except Failure α} {next : α → Except Failure β} :
    Aborts (first >>= next) ↔ Aborts first ∨ ∃ value, first = .ok value ∧ Aborts (next value) := by
  cases first with
  | error failure => simp [bind, Except.bind, aborts_error_iff]
  | ok value => simp [bind, Except.bind]

theorem not_aborts_bind {first : Except Failure α} {next : α → Except Failure β}
    (never : ¬ Aborts first) (others : ∀ value, ¬ Aborts (next value)) : ¬ Aborts (first >>= next) := by
  rw [aborts_bind_iff]
  rintro (here | ⟨value, -, later⟩)
  · exact never here
  · exact others value later

variable {act : σ → β → Except Failure σ}

/-- A run ends at the first item that ends it, after all items before it. -/
theorem aborts_foldlM_iff {items : List β} {state : σ} : Aborts (items.foldlM act state) ↔
    ∃ before item after middle, items = before ++ item :: after ∧
      before.foldlM act state = .ok middle ∧ Aborts (act middle item) := by
  induction items generalizing state with
  | nil =>
      constructor
      · intro aborts
        exact absurd aborts (not_aborts_pure state)
      · rintro ⟨before, item, after, middle, same, -⟩
        exact absurd same.symm (by simp)
  | cons first rest ih =>
      rw [List.foldlM_cons, aborts_bind_iff]
      constructor
      · rintro (here | ⟨next, taken, later⟩)
        · exact ⟨[], first, rest, state, rfl, rfl, here⟩
        · obtain ⟨before, item, after, middle, rfl, run, aborts⟩ := ih.1 later
          refine ⟨first :: before, item, after, middle, rfl, ?_, aborts⟩
          rw [List.foldlM_cons, taken]
          exact run
      · rintro ⟨before, item, after, middle, same, run, aborts⟩
        cases before with
        | nil =>
            obtain ⟨rfl, rfl⟩ := List.cons.inj same
            cases run
            exact Or.inl aborts
        | cons other before =>
            obtain ⟨rfl, rfl⟩ := List.cons.inj same
            obtain ⟨next, taken, others⟩ := bind_eq_ok_iff.1 (List.foldlM_cons.symm.trans run)
            exact Or.inr ⟨next, taken, ih.2 ⟨before, item, after, middle, rfl, others, aborts⟩⟩

theorem not_aborts_foldlM (never : ∀ state item, ¬ Aborts (act state item)) (items : List β)
    (state : σ) : ¬ Aborts (items.foldlM act state) := by
  intro aborts
  obtain ⟨before, item, after, middle, -, -, here⟩ := aborts_foldlM_iff.1 aborts
  exact never middle item here

end

-- References to views fail for reasons of their own.
section

variable {context : ViewContext}

theorem not_aborts_findView (name : String) : ¬ Aborts (context.findView name) := by
  unfold ViewContext.findView
  split <;> simp

theorem not_aborts_takeName (element : Element) : ¬ Aborts element.takeName := by
  unfold Element.takeName
  split
  · split <;> simp
  · simp

theorem not_aborts_claim? (view : View) (element : Element) : ¬ Aborts (element.claim? view) := by
  unfold Element.claim?
  split
  · exact not_aborts_bind (not_aborts_takeName element) fun _ => not_aborts_pure _
  split
  · exact not_aborts_ok _
  split
  · exact not_aborts_bind (not_aborts_takeName element) fun _ => not_aborts_pure _
  split
  · exact not_aborts_ok _
  · exact not_aborts_ok _

theorem not_aborts_addTo (bag : Bag) (claim : Element.Claim) : ¬ Aborts (claim.addTo bag) := by
  cases claim with
  | passed name element => exact not_aborts_ok _
  | collected name element =>
      simp only [Element.Claim.addTo, Bag.addItem]
      split <;> simp

theorem not_aborts_claimContent (view : View) (bag : Bag) (nodes : List Node) :
    ¬ Aborts (claimContent view bag nodes) := by
  induction nodes generalizing bag with
  | nil => exact not_aborts_ok _
  | cons node rest ih =>
      have claimed (claim : Element.Claim) :
          ¬ Aborts (claim.addTo bag >>= fun next => claimContent view next rest) :=
        not_aborts_bind (not_aborts_addTo bag claim) ih
      have left : ¬ Aborts (claimContent view bag rest >>= fun left => pure (left.1, node :: left.2)) :=
        not_aborts_bind (ih bag) fun _ => not_aborts_pure _
      simp only [claimContent]
      split
      · apply not_aborts_bind (not_aborts_claim? view _)
        intro claim
        cases claim with
        | some claim => exact claimed claim
        | none => exact left
      · exact left

theorem not_aborts_ofViewElement (view : View) (element : Element) :
    ¬ Aborts (Node.ofViewElement view element) :=
  not_aborts_bind (not_aborts_claimContent view _ _) fun _ => not_aborts_pure _

theorem not_aborts_viewElement (context : ViewContext) (element : Element) :
    ¬ Aborts (context.viewElement element) := by
  simp only [ViewContext.viewElement]
  split
  · split
    · simp
    · exact not_aborts_bind (not_aborts_findView _) fun view => not_aborts_ofViewElement view _
  · exact not_aborts_ok _
  · exact not_aborts_ok _
  · simp

theorem not_aborts_ofPairs (source : String) (bag : Bag) (pairs : List Expr) :
    ¬ Aborts (Bag.ofPairs source bag pairs) := by
  fun_induction Bag.ofPairs source bag pairs with
  | case1 => exact not_aborts_ok _
  | case2 => assumption
  | case3 => simp

theorem not_aborts_ofExpr (source : String) (object : Option Expr) :
    ¬ Aborts (Bag.ofExpr source object) := by
  unfold Bag.ofExpr
  split
  · exact not_aborts_ok _
  · exact not_aborts_ok _
  · split
    · exact not_aborts_ofPairs source _ _
    · simp
  · simp

theorem not_aborts_viewExpression (context : ViewContext) (expression : Expression) :
    ¬ Aborts (context.viewExpression expression) := by
  simp only [ViewContext.viewExpression]
  split
  -- However the name and the object are told apart, they are used in the same way.
  all_goals
    refine not_aborts_bind (by simp) fun parts => ?_
    obtain ⟨name, object⟩ := parts
    refine not_aborts_bind (not_aborts_ofExpr _ object) fun bag => ?_
    split
    · exact not_aborts_bind (not_aborts_findView _) fun _ => not_aborts_pure _
    · exact not_aborts_pure _
    · exact not_aborts_pure _
    · exact not_aborts_pure _
    · simp

end

-- Neither do blocks, elements and expressions end so.
theorem not_aborts_addBlock (scope : Scope) (blocks : BlockMap) (keyword : Keyword)
    (expression : Expression) : ¬ Aborts (scope.addBlock blocks keyword expression) := by
  unfold Scope.addBlock
  split
  · unfold Scope.closeBlock
    simp only
    split
    · split
      · split <;> simp
      · simp
    · simp
  split
  · unfold Scope.continueBlock
    split
    · exact not_aborts_ok _
    · split <;> simp
    · simp
  · exact not_aborts_ok _

theorem not_aborts_parse (openers : List String) (source : String) :
    ¬ Aborts (Expression.parse openers source) := by
  unfold Expression.parse
  split
  split
  · exact not_aborts_ok _
  · simp [aborts_error_iff, Failure.of]

theorem not_aborts_finish (scope : Scope) : ¬ Aborts scope.finish := by
  unfold Scope.finish
  split <;> simp

namespace Compiler

variable (compiler : Compiler) (context : ViewContext)

theorem not_aborts_addExpression (scope : Scope) (expression : Expression) :
    ¬ Aborts (compiler.addExpression context scope expression) := by
  unfold addExpression
  split
  · exact not_aborts_addBlock scope compiler.blocks _ expression
  split
  · exact not_aborts_bind (not_aborts_viewExpression context expression) fun _ => not_aborts_pure _
  · exact not_aborts_ok _

theorem not_aborts_addFragment (scope : Scope) (fragment : Fragment) :
    ¬ Aborts (compiler.addFragment context scope fragment) := by
  cases fragment with
  | literal text => exact not_aborts_ok _
  | delimited content =>
      simp only [addFragment]
      split
      · exact not_aborts_ok _
      · exact not_aborts_bind (not_aborts_parse _ content)
          fun expression => compiler.not_aborts_addExpression context scope expression

theorem not_aborts_closeElement (scope : Scope) (tag name : String) :
    ¬ Aborts (compiler.closeElement context scope tag name) := by
  unfold closeElement
  split
  · split
    · refine not_aborts_bind ?_ fun _ => not_aborts_pure _
      unfold closed
      split
      · exact not_aborts_viewElement context _
      split
      · split
        · exact not_aborts_ofViewElement _ _
        · exact not_aborts_ok _
      · exact not_aborts_ok _
    · simp
  · simp

/-- A cut of a text falls into a character, and all fragments before it are taken. -/
def CutsText (scope : Scope) (text : String) : Prop :=
  (∃ after, (Fragment.split text).items.foldlM (compiler.addFragment context) scope = .ok after) ∧
    Fragment.Cut text.toList

theorem aborts_addText_iff (scope : Scope) (text : String) :
    Aborts (compiler.addText context scope text) ↔ compiler.CutsText context scope text := by
  have never := not_aborts_foldlM (compiler.not_aborts_addFragment context)
    (Fragment.split text).items scope
  simp only [addText, aborts_bind_iff, CutsText, or_iff_right never, ← exists_and_right]
  refine exists_congr fun after => and_congr_right fun _ => ?_
  rw [← Fragment.fault_eq_cutCharacter_iff text text.toList]
  change _ ↔ ∃ named, (Fragment.split text).fault = some (.cutCharacter named)
  cases (Fragment.split text).fault with
  | none => simp
  | some cause => simp

theorem aborts_compileString_iff (source : String) :
    Aborts (compiler.compileString context source) ↔ compiler.CutsText context .root source := by
  rw [compileString, aborts_bind_iff, aborts_addText_iff]
  refine or_iff_left ?_
  rintro ⟨scope, -, ended⟩
  exact not_aborts_finish scope ended

/-- A written value is cut when its decoded text is. -/
def CutsValue : Option String → Prop
  | none => False
  | some value => value ≠ "" ∧ compiler.CutsText context .root (unescapeEntities value)

theorem aborts_attributeFor_iff (name : String) (value : Option String) :
    Aborts (compiler.attributeFor context name value) ↔ compiler.CutsValue context value := by
  cases value with
  | none => simp [attributeFor, CutsValue]
  | some value =>
      unfold attributeFor CutsValue
      -- An empty value is not compiled.
      by_cases empty : value = ""
      · simp [empty]
      have filled : value.isEmpty = false := by simpa using empty
      simp only [filled, Bool.false_eq_true, if_false, attributeValue, aborts_bind_iff,
        aborts_compileString_iff]
      rw [or_iff_left]
      · exact (and_iff_right empty).symm
      · rintro ⟨content, -, ended⟩
        -- What follows the compilation only looks at its result.
        split at ended <;> simp at ended

/-- The first attribute whose value is cut comes after attributes that compile. -/
def CutsAttributes (written : List (String × Option String)) : Prop :=
  ∃ before name value after, written = before ++ (name, value) :: after ∧
    (∃ dict, compiler.attributes context before = .ok dict) ∧ compiler.CutsValue context value

theorem aborts_attributes_iff (written : List (String × Option String)) :
    Aborts (compiler.attributes context written) ↔ compiler.CutsAttributes context written := by
  unfold attributes
  rw [aborts_foldlM_iff]
  constructor
  · rintro ⟨before, ⟨name, value⟩, after, dict, same, run, aborts⟩
    refine ⟨before, name, value, after, same, ⟨dict, run⟩, ?_⟩
    rw [aborts_bind_iff, aborts_attributeFor_iff] at aborts
    refine aborts.resolve_right ?_
    rintro ⟨_, -, ended⟩
    exact not_aborts_pure _ ended
  · rintro ⟨before, name, value, after, same, ⟨dict, run⟩, cuts⟩
    refine ⟨before, (name, value), after, dict, same, run, ?_⟩
    rw [aborts_bind_iff, aborts_attributeFor_iff]
    exact Or.inl cuts

/-- Only texts and attribute values are split. -/
def CutsEvent (scope : Scope) : Event → Prop
  | .text data => compiler.CutsText context scope (unescapeEntities data)
  | .startTag _ _ written => compiler.CutsAttributes context written
  | _ => False

theorem aborts_addEvent_iff (scope : Scope) (event : Event) :
    Aborts (compiler.addEvent context scope event) ↔ compiler.CutsEvent context scope event := by
  cases event with
  | startTag tag name written =>
      simp only [addEvent, aborts_bind_iff, aborts_attributes_iff, CutsEvent, not_aborts_pure,
        and_false, exists_false, or_false]
  | endTag tag name =>
      simp only [addEvent, CutsEvent, iff_false]
      split
      · exact not_aborts_ok _
      · exact compiler.not_aborts_closeElement context scope tag name
  | text data => exact compiler.aborts_addText_iff context scope _
  | comment tag data =>
      simp only [addEvent, CutsEvent, iff_false]
      split <;> exact not_aborts_ok _
  | other tag => simp [addEvent, CutsEvent]

/-- Markup is cut at the first event that is, after events that are taken. -/
def CutsMarkup (source : String) : Prop :=
  ∃ before event after scope, Markup.events source = before ++ event :: after ∧
    before.foldlM (compiler.addEvent context) Scope.root = .ok scope ∧
    compiler.CutsEvent context scope event

theorem aborts_compileMarkup_iff (source : String) :
    Aborts (compiler.compileMarkup context source) ↔ compiler.CutsMarkup context source := by
  rw [compileMarkup, aborts_bind_iff, or_iff_left, Markup.feed, aborts_foldlM_iff, CutsMarkup]
  · simp only [aborts_addEvent_iff]
  · rintro ⟨scope, -, ended⟩
    exact not_aborts_finish scope ended

/-- All cuts of a delimiter are between characters but the one before its last two
bytes, which is so exactly if the last brace stands after a character of one byte.
Compiling aborts exactly at cuts that are not. -/
theorem aborts_iff_cut :
    (∀ text before inside rest, Fragment.Delimits text before inside rest →
      Text.IsBoundary text (Text.byteSize before) ∧ Text.IsBoundary text (Text.byteSize before + 2) ∧
      Text.byteSize before + 2 ≤ Fragment.stop before inside - 2 ∧
      Text.IsBoundary text (Fragment.stop before inside) ∧
      (Text.IsBoundary text (Fragment.stop before inside - 2) ↔
        ∃ content c, inside = content ++ [c, '}'] ∧ c.utf8Size = 1)) ∧
    (∀ source, Aborts (compiler.compileString context source) ↔
      compiler.CutsText context .root source) ∧
    (∀ name value, Aborts (compiler.attributeFor context name value) ↔
      compiler.CutsValue context value) ∧
    ∀ source, Aborts (compiler.compileMarkup context source) ↔ compiler.CutsMarkup context source := by
  refine ⟨?_, compiler.aborts_compileString_iff context, compiler.aborts_attributeFor_iff context,
    compiler.aborts_compileMarkup_iff context⟩
  intro text before inside rest delimits
  exact ⟨delimits.isBoundary_start, delimits.isBoundary_content, delimits.content_le_stop,
    delimits.isBoundary_stop, delimits.isBoundary_iff⟩

/-- The letter between the last two braces takes two bytes. -/
def acute : List Char :=
  ['{', '{', 'a', '}', 'é', '}']

theorem acute_delimits : Fragment.Delimits acute [] ['a', '}', 'é', '}'] [] :=
  ⟨rfl, rfl⟩

/-- Here the braces stand side by side, and no cut falls into a character. -/
theorem aborts_iff_cut_plain :
    Fragment.Delimits ['é', '{', '{', 'é', '}', '}'] ['é'] ['é', '}', '}'] [] ∧
      Text.IsBoundary ['é', '{', '{', 'é', '}', '}'] 6 ∧
      ¬ Aborts (Compiler.standard.compileString .detached "é") := by
  have delimits : Fragment.Delimits ['é', '{', '{', 'é', '}', '}'] ['é'] ['é', '}', '}'] [] := ⟨rfl, rfl⟩
  obtain ⟨cuts, texts, -⟩ := aborts_iff_cut .standard .detached
  refine ⟨delimits, (cuts _ _ _ _ delimits).2.2.2.2.2 ⟨['é'], '}', rfl, rfl⟩, ?_⟩
  rw [texts]
  rintro ⟨-, cut⟩
  obtain ⟨before, inside, rest, other⟩ := cut.exists_delimits
  exact absurd other.opened (by simp [Text.split?, Text.strip?, Fragment.opening])

set_option maxRecDepth 20000 in
theorem aborts_acute :
    Fragment.Delimits acute [] ['a', '}', 'é', '}'] [] ∧
      ¬ Text.IsBoundary acute (Fragment.stop [] ['a', '}', 'é', '}'] - 2) ∧
      Aborts (Compiler.standard.compileString .detached (String.ofList acute)) := by
  have wide : ¬ Text.IsBoundary acute (Fragment.stop [] ['a', '}', 'é', '}'] - 2) := by
    rw [acute_delimits.isBoundary_iff]
    rintro ⟨content, c, same, narrow⟩
    have split : ['a', '}'] ++ ['é', '}'] = content ++ [c, '}'] := same
    obtain ⟨-, tail⟩ := List.append_inj' split rfl
    obtain ⟨rfl, -⟩ := List.cons.inj tail
    exact absurd narrow (by decide)
  have split : (Fragment.split (String.ofList acute)).items = [] := by cbv
  refine ⟨acute_delimits, wide, ?_⟩
  rw [aborts_compileString_iff, CutsText, split, String.toList_ofList]
  exact ⟨⟨.root, rfl⟩, .here acute_delimits wide⟩

end Compiler

end Stencil
