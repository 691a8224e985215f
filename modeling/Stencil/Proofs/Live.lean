import Stencil.Proofs.Gather
import Stencil.Template.Compile

/-! Compiling on one stack of scopes that every step changes.

A step that fails leaves the scopes as they are by then, without what it took off them.
An attribute value is compiled on scopes of its own, which stand in the place of the live
ones until it has ended, whether it compiles or not. What the steps do to the scopes is
what compiling does that passes scopes on.
-/

set_option autoImplicit false

namespace Stencil

/-- A step on the live scopes. -/
abbrev Live (α : Type) :=
  EStateM Failure Scope α

namespace Live

open MonadExcept (ofExcept)

def append (node : Node) : Live Unit :=
  modify (·.append node)

def enter : Live Unit :=
  modify Scope.enter

/-- Closes the current scope for its content. At the root there is nothing to close. -/
def leave (failure : Failure) : Live (List Node) := do
  match (← get).leave? with
  | some (content, around) => do
      set around
      pure content
  | none => throw failure

/-- Puts a node in the place of the newest one. -/
def replaceNewest (node : Node) : Live Unit :=
  modify fun scope => { scope with current := node :: scope.current.tail }

def removeNewest : Live Unit :=
  modify fun scope => { scope with current := scope.current.tail }

def openBlock (kind : BlockKind) (opener : Expression) : Live Unit := do
  append (Scope.blockNode opener kind)
  enter

def continueBlock (keyword : Keyword) (expression : Expression) : Live Unit := do
  let stray := Failure.of (.strayElse expression.marks.source)
  let content ← leave stray
  match (← get).current with
  | .conditional branches :: _ => do
      replaceNewest (.conditional ((branches.fill content).add expression))
      enter
  | .each opener _ none :: _ =>
      if keyword = .orElse then do
        replaceNewest (.each opener content (some []))
        enter
      else throw stray
  | _ => throw stray

def closeBlock (keyword : Keyword) (expression : Expression) : Live Unit := do
  let mismatch := Failure.of (.closedBlock expression.marks.source)
  let content ← leave mismatch
  match (← get).current with
  | node :: _ =>
      match node.opener?.bind (·.marks.keyword) with
      | some opened =>
          if keyword = .close || keyword = opened then replaceNewest (node.fill content)
          else throw mismatch
      | none => throw mismatch
  | [] => throw mismatch

/-- Runs a step on fresh scopes in the place of the live ones, and gives what it made of
them. The live scopes are put back before it is looked at how the step ended. -/
def apart (step : Live Unit) : Live Scope := do
  let outer ← getModify fun _ => Scope.root
  let ended ← observing step
  let inner ← getModify fun _ => outer
  ofExcept ended
  pure inner

section

variable (compiler : Compiler) (context : ViewContext)

def addExpression (expression : Expression) : Live Unit :=
  match expression.marks.keyword with
  | some keyword =>
      if expression.marks.isEnd then closeBlock keyword expression
      else if keyword.continues then continueBlock keyword expression
      else openBlock (compiler.blocks.kind keyword) expression
  | none =>
      if expression.marks.isView then do
        let node ← ofExcept (context.viewExpression expression)
        append node
      else append (.dynamic expression)

def addFragment : Fragment → Live Unit
  | .literal text => append (.text text)
  | .delimited content =>
      if content.toList.all Text.isBlank then pure ()
      else do
        let expression ← ofExcept (compiler.expression content)
        addExpression compiler context expression

def addText (text : String) : Live Unit := do
  (Fragment.split text).items.forM (addFragment compiler context)
  match (Fragment.split text).fault with
  | some cause => throw (.of cause)
  | none => pure ()

def attributeValue (name value : String) : Live Attribute := do
  let inner ← apart (addText compiler context (unescapeEntities value))
  let content ← ofExcept inner.finish
  match Compiler.attributeOf? content with
  | some passed => pure passed
  | none => throw (.of (.emptyAttribute name value))

def attributeFor (name : String) : Option String → Live Attribute
  | none => pure (.literal (.bool true))
  | some value =>
      if value.isEmpty then pure (.literal (.string value))
      else attributeValue compiler context name value

def attributes (written : List (String × Option String)) : Live (Dict Attribute) :=
  written.foldlM (fun dict entry => do
    let value ← attributeFor compiler context entry.1 entry.2
    pure (dict.insert entry.1 value)) .empty

/-- A closed element is taken off the scopes before a view is put in its place. -/
def closeElement (tag name : String) : Live Unit := do
  let mismatch := Failure.of (.openTag tag)
  let content ← leave mismatch
  match (← get).current with
  | .element element :: _ =>
      if element.tag = name then do
        removeNewest
        let node ← ofExcept (compiler.closed context { element with content := content })
        append node
      else throw mismatch
  | _ => throw mismatch

def addEvent : Event → Live Unit
  | .startTag _ name written => do
      let attributes ← attributes compiler context written
      append (.element ⟨name, attributes, [], Markup.isVoid name⟩)
      if Markup.isVoid name then pure () else enter
  | .endTag tag name =>
      if Markup.isVoid name then pure () else closeElement compiler context tag name
  | .text data => addText compiler context (unescapeEntities data)
  | .comment tag data =>
      if compiler.conditionalComments && Markup.isConditional tag then append (.comment data)
      else pure ()
  | .other tag =>
      append (.dynamic ⟨.literal (.string tag), { Marks.plain tag with unescaped := true }⟩)

end

/-- How a step ends that leaves the scopes as they were. -/
def still {α : Type} (result : Except Failure α) (scope : Scope) : EStateM.Result Failure Scope α :=
  match result with
  | .ok value => .ok value scope
  | .error failure => .error failure scope

/-- The scopes after a step, if it succeeds. -/
def scopes (step : Live Unit) (scope : Scope) : Except Failure Scope :=
  match step scope with
  | .ok _ after => .ok after
  | .error failure _ => .error failure

section

variable {α β : Type} {scope : Scope}

theorem still_ofExcept (result : Except Failure α) (scope : Scope) :
    (ofExcept result : Live α) scope = still result scope := by
  cases result <;> rfl

theorem still_bind {first : Live α} {result : Except Failure α} (here : first scope = still result scope)
    {next : α → Live β} {later : α → Except Failure β}
    (others : ∀ value, next value scope = still (later value) scope) :
    (first >>= next) scope = still (result >>= later) scope := by
  change EStateM.bind first next scope = _
  rw [EStateM.bind, here]
  cases result with
  | error failure => rfl
  | ok value => exact others value

theorem still_foldlM {step : β → α → Live β} {act : β → α → Except Failure β}
    (each : ∀ value item, step value item scope = still (act value item) scope) (items : List α)
    (value : β) : items.foldlM step value scope = still (items.foldlM act value) scope := by
  induction items generalizing value with
  | nil => rfl
  | cons item rest ih =>
      rw [List.foldlM_cons, List.foldlM_cons]
      exact still_bind (each value item) ih

theorem scopes_bind (first next : Live Unit) (scope : Scope) :
    scopes (first >>= fun _ => next) scope = scopes first scope >>= scopes next := by
  change scopes (EStateM.bind first fun _ => next) scope = _
  unfold scopes EStateM.bind
  cases first scope <;> rfl

theorem scopes_bind_of_still {first : Live α} {result : Except Failure α}
    (here : first scope = still result scope) (next : α → Live Unit) :
    scopes (first >>= next) scope = result >>= fun value => scopes (next value) scope := by
  change scopes (EStateM.bind first next) scope = _
  unfold scopes EStateM.bind
  rw [here]
  cases result <;> rfl

theorem scopes_get_bind (next : Scope → Live Unit) (scope : Scope) :
    scopes (get >>= next) scope = scopes (next scope) scope := rfl

theorem scopes_leave_bind (failure : Failure) (next : List Node → Live Unit) (scope : Scope) :
    scopes (leave failure >>= next) scope =
      match scope.leave? with
      | some (content, around) => scopes (next content) around
      | none => .error failure := by
  obtain ⟨current, outer⟩ := scope
  cases outer <;> rfl

theorem scopes_forM (step : β → Live Unit) (items : List β) (scope : Scope) :
    scopes (items.forM step) scope = items.foldlM (fun scope item => scopes (step item) scope) scope := by
  induction items generalizing scope with
  | nil => rfl
  | cons item rest ih =>
      change scopes (step item >>= fun _ => rest.forM step) scope = _
      rw [scopes_bind, List.foldlM_cons]
      congr 1
      funext after
      exact ih after

/-- Looking at how a step ends does not undo it. -/
theorem observing_eq (step : Live α) (scope : Scope) :
    (observing step : Live (Except Failure α)) scope =
      match step scope with
      | .ok value after => .ok (Except.ok value) after
      | .error failure after => .ok (Except.error failure) after := by
  have opened : (observing step : Live (Except Failure α)) scope =
      EStateM.tryCatch (EStateM.bind step fun value => EStateM.pure (Except.ok value))
        (fun failure => EStateM.pure (Except.error failure)) scope := rfl
  rw [opened]
  unfold EStateM.tryCatch EStateM.bind
  cases step scope <;> rfl

/-- Whatever a step does apart, the live scopes are as they were. -/
theorem still_apart (step : Live Unit) (scope : Scope) :
    apart step scope = still (scopes step .root) scope := by
  have opened : apart step scope = EStateM.bind (observing step) (fun ended =>
      EStateM.bind (getModify fun _ => scope) fun inner =>
        EStateM.bind (ofExcept ended) fun _ => EStateM.pure inner) .root := rfl
  rw [opened, EStateM.bind, observing_eq, scopes]
  cases step .root <;> rfl

end

section

variable (keyword : Keyword) (expression : Expression) (scope : Scope)

theorem scopes_closeBlock :
    scopes (closeBlock keyword expression) scope = scope.closeBlock keyword expression := by
  obtain ⟨current, outer⟩ := scope
  simp only [closeBlock, scopes_leave_bind, scopes_get_bind, Scope.closeBlock, Scope.leave?]
  cases outer with
  | nil => rfl
  | cons around outer =>
      cases around with
      | nil => rfl
      | cons node before =>
          simp only
          cases node.opener?.bind (·.marks.keyword) with
          | none => rfl
          | some opened =>
              simp only
              split <;> rfl

theorem scopes_continueBlock :
    scopes (continueBlock keyword expression) scope = scope.continueBlock keyword expression := by
  obtain ⟨current, outer⟩ := scope
  simp only [continueBlock, scopes_leave_bind, scopes_get_bind, Scope.continueBlock, Scope.leave?]
  cases outer with
  | nil => rfl
  | cons around outer =>
      simp only
      split
      · rfl
      · simp only
        split <;> rfl
      · rename_i noConditional noLoop
        split
        · rename_i same
          cases same
          exact absurd rfl (noConditional _ _)
        · rename_i same
          cases same
          exact absurd rfl (noLoop _ _ _)
        · rfl

end

section

variable (compiler : Compiler) (context : ViewContext)

theorem scopes_addExpression (expression : Expression) (scope : Scope) :
    scopes (addExpression compiler context expression) scope =
      compiler.addExpression context scope expression := by
  simp only [addExpression, Compiler.addExpression, Scope.addBlock]
  cases expression.marks.keyword with
  | some keyword =>
      simp only
      split
      · exact scopes_closeBlock keyword expression scope
      split
      · exact scopes_continueBlock keyword expression scope
      · rfl
  | none =>
      simp only
      split
      · exact scopes_bind_of_still (still_ofExcept (context.viewExpression expression) scope) _
      · rfl

theorem scopes_addFragment (fragment : Fragment) (scope : Scope) :
    scopes (addFragment compiler context fragment) scope =
      compiler.addFragment context scope fragment := by
  cases fragment with
  | literal text => rfl
  | delimited content =>
      simp only [addFragment, Compiler.addFragment]
      split
      · rfl
      · rw [scopes_bind_of_still (still_ofExcept (compiler.expression content) scope)]
        simp only [scopes_addExpression]

theorem scopes_addText (text : String) (scope : Scope) :
    scopes (addText compiler context text) scope = compiler.addText context scope text := by
  simp only [addText, Compiler.addText, scopes_bind, scopes_forM, scopes_addFragment]
  congr 1
  funext after
  cases (Fragment.split text).fault <;> rfl

theorem still_attributeValue (name value : String) (scope : Scope) :
    attributeValue compiler context name value scope =
      still (compiler.attributeValue context name value) scope := by
  have text : apart (addText compiler context (unescapeEntities value)) scope =
      still (compiler.addText context .root (unescapeEntities value)) scope := by
    rw [still_apart, scopes_addText]
  simp only [attributeValue, Compiler.attributeValue, Compiler.compileString, bind_assoc]
  refine still_bind text fun inner => still_bind (still_ofExcept inner.finish scope) fun content => ?_
  cases Compiler.attributeOf? content <;> rfl

theorem still_attributes (written : List (String × Option String)) (scope : Scope) :
    attributes compiler context written scope = still (compiler.attributes context written) scope := by
  refine still_foldlM (fun dict entry => ?_) written Dict.empty
  have value : attributeFor compiler context entry.1 entry.2 scope =
      still (compiler.attributeFor context entry.1 entry.2) scope := by
    cases entry.2 with
    | none => rfl
    | some value =>
        simp only [attributeFor, Compiler.attributeFor]
        split
        · rfl
        · exact still_attributeValue compiler context entry.1 value scope
  exact still_bind value fun _ => rfl

theorem scopes_closeElement (tag name : String) (scope : Scope) :
    scopes (closeElement compiler context tag name) scope =
      compiler.closeElement context scope tag name := by
  obtain ⟨current, outer⟩ := scope
  simp only [closeElement, scopes_leave_bind, scopes_get_bind, Compiler.closeElement, Scope.leave?]
  cases outer with
  | nil => rfl
  | cons around outer =>
      simp only
      split
      · simp only
        split
        · rw [scopes_bind]
          exact scopes_bind_of_still (still_ofExcept _ _) _
        · rfl
      · rename_i noElement
        split
        · rename_i same
          cases same
          exact absurd rfl (noElement _ _)
        · rfl

/-- The live steps of a source do to the scopes what its events do. -/
theorem scopes_addEvent (event : Event) (scope : Scope) :
    scopes (addEvent compiler context event) scope = compiler.addEvent context scope event := by
  cases event with
  | startTag tag name written =>
      simp only [addEvent, Compiler.addEvent]
      rw [scopes_bind_of_still (still_attributes compiler context written scope)]
      congr 1
      funext attributes
      split <;> rfl
  | endTag tag name =>
      simp only [addEvent, Compiler.addEvent]
      split
      · rfl
      · exact scopes_closeElement compiler context tag name scope
  | text data => exact scopes_addText compiler context (unescapeEntities data) scope
  | comment tag data =>
      simp only [addEvent, Compiler.addEvent]
      split <;> rfl
  | other tag => rfl

/-- So a source compiles by live steps on fresh scopes, which are closed at its end. -/
theorem compileMarkup_eq_scopes (source : String) :
    compiler.compileMarkup context source =
      scopes ((Markup.events source).forM (addEvent compiler context)) .root >>= Scope.finish := by
  simp only [Compiler.compileMarkup, Markup.feed, scopes_forM, scopes_addEvent]

theorem compileString_eq_scopes (source : String) :
    compiler.compileString context source =
      scopes (addText compiler context source) .root >>= Scope.finish := by
  rw [scopes_addText]
  rfl

/-- What an attribute holds, from what its value compiles to. -/
inductive Gives (name value : String) : Except Failure Template → Except Failure Attribute → Prop where
  | failed {failure : Failure} : Gives name value (.error failure) (.error failure)
  | nothing : Gives name value (.ok []) (.error (.of (.emptyAttribute name value)))
  | text {data : String} : Gives name value (.ok [.text data]) (.ok (.literal (.string data)))
  | literal {expression : Expression} {constant : Value} : expression.expr = .literal constant →
      Gives name value (.ok [.dynamic expression]) (.ok (.literal constant))
  | dynamic {expression : Expression} : (∀ constant, expression.expr ≠ .literal constant) →
      Gives name value (.ok [.dynamic expression]) (.ok (.dynamic expression))
  | template {content : Template} : content ≠ [] → (∀ data, content ≠ [.text data]) →
      (∀ expression, content ≠ [.dynamic expression]) →
      Gives name value (.ok content) (.ok (.template content))

theorem gives_attributeValue (name value : String) :
    Gives name value (compiler.compileString context (unescapeEntities value))
      (compiler.attributeValue context name value) := by
  rw [Compiler.attributeValue]
  cases compiler.compileString context (unescapeEntities value) with
  | error failure => exact .failed
  | ok content =>
      change Gives name value _ (match Compiler.attributeOf? content with
        | some passed => .ok passed
        | none => .error (.of (.emptyAttribute name value)))
      unfold Compiler.attributeOf?
      split
      · rename_i found
        split at found
        · cases found
        · cases found
          exact .text
        · split at found
          · rename_i literal
            cases found
            exact .literal literal
          · rename_i other
            cases found
            exact .dynamic other
        · rename_i notEmpty notText notDynamic
          cases found
          exact .template notEmpty notText notDynamic
      · rename_i none
        split at none
        · exact .nothing
        · cases none
        · split at none <;> cases none
        · cases none

/-- An attribute value is compiled apart: the live scopes are as they were, whether it
compiles or not, and nothing decides what the attribute holds but the template of the
value as a text by itself. -/
theorem attributeValue_apart (name value : String) (scope : Scope) :
    attributeValue compiler context name value scope =
        still (compiler.attributeValue context name value) scope ∧
      Gives name value (compiler.compileString context (unescapeEntities value))
        (compiler.attributeValue context name value) :=
  ⟨still_attributeValue compiler context name value scope,
    gives_attributeValue compiler context name value⟩

end

end Live

end Stencil
