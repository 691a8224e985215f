import Stencil.Template.Composition

/-! How a view claims the children of an element.

By its tag and the name that it gives itself, a child is passed to the view, is collected
into an array, or is left where it is. A run over the children takes them one by one, and
stops at a child that lacks a name or is to be collected where some other value stands.
-/

set_option autoImplicit false

namespace Stencil

namespace Element

/-- The name that an `attribute` or `array` element gives itself: a text that is not empty. -/
def givenName? (element : Element) : Option String :=
  match element.attributes.find? "name" with
  | some (.literal (.string name)) => if name.isEmpty then none else some name
  | _ => none

/-- The element without its name. -/
def unnamed (element : Element) : Element :=
  { element with attributes := element.attributes.erase "name" }

theorem takeName_eq (element : Element) :
    element.takeName = match element.givenName? with
      | some name => .ok (name, element.unnamed)
      | none => .error (.of (.unnamedChild element.tag)) := by
  grind [takeName, givenName?, unnamed]

end Element

namespace Node

/-- The elements that a view does not leave in the content. -/
def isClaimed (view : View) : Node → Bool
  | .element child =>
      child.tag = "attribute" || child.tag = "array" || child.tag ∈ view.attributes ||
        child.tag ∈ view.arrays
  | _ => false

/-- What is passed, and the name that it is passed under: the content of an `attribute` element
under the name that this gives, and the content of any other element that the view declares as
an attribute under its tag. -/
def passed? (view : View) : Node → Option (String × List Node)
  | .element child =>
      if child.tag = "attribute" then child.givenName?.map (·, child.content)
      else if child.tag ∈ view.attributes then some (child.tag, child.content)
      else none
  | _ => none

/-- What is collected, and the name of the array. An element is an item with its attributes and
its content; what it gives as the name of the array is no part of the item. -/
def collected? (view : View) : Node → Option (String × Bag)
  | .element child =>
      if child.tag = "attribute" ∨ child.tag ∈ view.attributes then none
      else if child.tag = "array" then child.givenName?.map (·, child.unnamed.bag)
      else if child.tag ∈ view.arrays then some (child.tag, child.bag)
      else none
  | _ => none

/-- The tag of a child that has to give itself a name, and does not. -/
def lacking? (view : View) : Node → Option String
  | .element child =>
      if (child.tag = "attribute" ∨ child.tag = "array" ∧ "array" ∉ view.attributes) ∧
          child.givenName? = none then some child.tag
      else none
  | _ => none

/-- The name under which a child is claimed. -/
def claimedName? (view : View) (node : Node) : Option String :=
  ((node.passed? view).map (·.1)).or ((node.collected? view).map (·.1))

/-- What becomes of a child, and what a run over the children does with it. -/
inductive Fate (view : View) (node : Node) : Prop where
  | left : node.isClaimed view = false → node.passed? view = none → node.collected? view = none →
      node.lacking? view = none →
      (∀ bag rest, claimContent view bag (node :: rest) =
        claimContent view bag rest >>= fun left => pure (left.1, node :: left.2)) → Fate view node
  | passed (name : String) (content : List Node) : node.isClaimed view = true →
      node.passed? view = some (name, content) → node.collected? view = none →
      node.lacking? view = none →
      (∀ bag rest, claimContent view bag (node :: rest) =
        claimContent view (bag.insert name (.ofContent content)) rest) → Fate view node
  | collected (name : String) (item : Bag) : node.isClaimed view = true →
      node.passed? view = none → node.collected? view = some (name, item) →
      node.lacking? view = none →
      (∀ bag rest, claimContent view bag (node :: rest) =
        bag.addItem name item >>= fun next => claimContent view next rest) → Fate view node
  | lacking (tag : String) : node.isClaimed view = true → node.passed? view = none →
      node.collected? view = none → node.lacking? view = some tag →
      (∀ bag rest, claimContent view bag (node :: rest) = .error (.of (.unnamedChild tag))) →
      Fate view node

/-- An `attribute` element is passed under the name that it gives. -/
theorem fate_of_attribute (view : View) {child : Element} (isAttribute : child.tag = "attribute") :
    Fate view (.element child) := by
  have tests : (Node.element child).isClaimed view = true := by simp [isClaimed, isAttribute]
  have apart : (Node.element child).collected? view = none := by simp [collected?, isAttribute]
  cases given : child.givenName? with
  | some name =>
      refine .passed name child.content tests ?_ apart ?_ fun bag rest => ?_
      · simp [passed?, isAttribute, given]
      · simp [lacking?, given]
      · simp only [claimContent, Element.claim?, if_pos isAttribute, Element.takeName_eq, given]
        rfl
  | none =>
      refine .lacking child.tag tests ?_ apart ?_ fun bag rest => ?_
      · simp [passed?, isAttribute, given]
      · simp [lacking?, isAttribute, given]
      · simp only [claimContent, Element.claim?, if_pos isAttribute, Element.takeName_eq, given]
        rfl

/-- An `array` element is collected under the name that it gives, unless the view declares
`array` as an attribute. -/
theorem fate_of_array {view : View} {child : Element} (isArray : child.tag = "array")
    (absent : "array" ∉ view.attributes) : Fate view (.element child) := by
  have other : child.tag ≠ "attribute" := by simp [isArray]
  have undeclared : child.tag ∉ view.attributes := isArray ▸ absent
  have tests : (Node.element child).isClaimed view = true := by simp [isClaimed, isArray]
  have unpassed : (Node.element child).passed? view = none := by simp [passed?, other, undeclared]
  cases given : child.givenName? with
  | some name =>
      refine .collected name child.unnamed.bag tests unpassed ?_ ?_ fun bag rest => ?_
      · simp [collected?, isArray, absent, given]
      · simp [lacking?, given]
      · simp only [claimContent, Element.claim?, if_neg other, if_neg undeclared, if_pos isArray,
          Element.takeName_eq, given]
        rfl
  | none =>
      refine .lacking child.tag tests unpassed ?_ ?_ fun bag rest => ?_
      · simp [collected?, isArray, absent, given]
      · simp [lacking?, isArray, absent, given]
      · simp only [claimContent, Element.claim?, if_neg other, if_neg undeclared, if_pos isArray,
          Element.takeName_eq, given]
        rfl

theorem fate (view : View) (node : Node) : Fate view node := by
  cases node with
  | element child =>
      by_cases isAttribute : child.tag = "attribute"
      · exact fate_of_attribute view isAttribute
      by_cases declared : child.tag ∈ view.attributes
      · refine .passed child.tag child.content ?_ ?_ ?_ ?_ fun bag rest => ?_
        · simp [isClaimed, declared]
        · simp [passed?, isAttribute, declared]
        · simp [collected?, declared]
        · have isArray : ¬ (child.tag = "array" ∧ "array" ∉ view.attributes) :=
            fun ⟨same, absent⟩ => absent (same ▸ declared)
          simp [lacking?, isAttribute, isArray]
        · simp only [claimContent, Element.claim?, if_neg isAttribute, if_pos declared]
          rfl
      have unpassed : (Node.element child).passed? view = none := by
        simp [passed?, isAttribute, declared]
      by_cases isArray : child.tag = "array"
      · exact fate_of_array isArray (isArray ▸ declared)
      have named : (Node.element child).lacking? view = none := by simp [lacking?, isAttribute, isArray]
      by_cases listed : child.tag ∈ view.arrays
      · refine .collected child.tag child.bag ?_ unpassed ?_ named fun bag rest => ?_
        · simp [isClaimed, listed]
        · simp [collected?, isAttribute, declared, isArray, listed]
        · simp only [claimContent, Element.claim?, if_neg isAttribute, if_neg declared, if_neg isArray,
            if_pos listed]
          rfl
      · refine .left ?_ unpassed ?_ named fun bag rest => ?_
        · simp [isClaimed, isAttribute, declared, isArray, listed]
        · simp [collected?, isAttribute, declared, isArray, listed]
        · simp only [claimContent, Element.claim?, if_neg isAttribute, if_neg declared, if_neg isArray,
            if_neg listed]
          rfl
  | _ => exact .left rfl rfl rfl rfl fun _ _ => rfl

variable {view : View} {node : Node}

theorem alone_of_left (free : node.isClaimed view = false) :
    node.passed? view = none ∧ node.collected? view = none ∧ node.lacking? view = none := by
  cases node.fate view with
  | left _ noContent noItem named => exact ⟨noContent, noItem, named⟩
  | passed _ _ taken | collected _ _ taken | lacking _ taken => simp [taken] at free

theorem alone_of_passed {entry : String × List Node} (passed : node.passed? view = some entry) :
    node.isClaimed view = true ∧ node.collected? view = none ∧ node.lacking? view = none := by
  cases node.fate view with
  | passed _ _ taken _ noItem named => exact ⟨taken, noItem, named⟩
  | left _ noContent | collected _ _ _ noContent | lacking _ _ noContent => simp [noContent] at passed

theorem alone_of_collected {entry : String × Bag} (collected : node.collected? view = some entry) :
    node.isClaimed view = true ∧ node.passed? view = none ∧ node.lacking? view = none := by
  cases node.fate view with
  | collected _ _ taken noContent _ named => exact ⟨taken, noContent, named⟩
  | left _ _ noItem | passed _ _ _ _ noItem | lacking _ _ _ noItem => simp [noItem] at collected

theorem alone_of_lacking {tag : String} (lacking : node.lacking? view = some tag) :
    node.isClaimed view = true ∧ node.passed? view = none ∧ node.collected? view = none := by
  cases node.fate view with
  | lacking _ taken noContent noItem => exact ⟨taken, noContent, noItem⟩
  | left _ _ _ named | passed _ _ _ _ _ named | collected _ _ _ _ _ named => simp [named] at lacking

end Node

namespace Bag

/-- The items that are collected under a name so far; there is no place for any if some other
value stands there. -/
def gathered? (bag : Bag) (name : String) : Option (List Bag) :=
  match bag.find? name with
  | none => some []
  | some (.array items) => some items
  | some _ => none

variable {bag : Bag} {name : String}

theorem addItem_eq (bag : Bag) (name : String) (item : Bag) :
    bag.addItem name item = match bag.gathered? name with
      | some items => .ok (bag.insert name (.array (items ++ [item])))
      | none => .error (.of (.mixedAttribute name)) := by
  grind [addItem, gathered?]

theorem gathered?_insert_of_ne {other : String} (apart : other ≠ name) (value : ViewAttribute) :
    gathered? (bag.insert other value) name = bag.gathered? name := by
  simp [gathered?, apart.symm]

theorem gathered?_insert_content (bag : Bag) (name : String) (content : List Node) :
    gathered? (bag.insert name (.ofContent content)) name = none := by
  simp [gathered?, ViewAttribute.ofContent]

theorem gathered?_insert_array (bag : Bag) (name : String) (items : List Bag) :
    gathered? (bag.insert name (.array items)) name = some items := by
  simp [gathered?]

theorem gathered?_eq_none_iff :
    bag.gathered? name = none ↔
      ∃ value, bag.find? name = some value ∧ ∀ items, value ≠ .array items := by
  grind [gathered?]

end Bag

/-- A run over children that takes a bag to another one, and the children that it leaves. -/
inductive Claims (view : View) : Bag → List Node → Bag → List Node → Prop where
  | done {bag : Bag} : Claims view bag [] bag []
  | left {bag after : Bag} {node : Node} {rest remaining : List Node} :
      node.isClaimed view = false → Claims view bag rest after remaining →
      Claims view bag (node :: rest) after (node :: remaining)
  | passed {bag after : Bag} {node : Node} {rest remaining : List Node} {name : String}
      {content : List Node} :
      node.passed? view = some (name, content) →
      Claims view (bag.insert name (.ofContent content)) rest after remaining →
      Claims view bag (node :: rest) after remaining
  | collected {bag after : Bag} {node : Node} {rest remaining : List Node} {name : String}
      {item : Bag} {items : List Bag} :
      node.collected? view = some (name, item) → bag.gathered? name = some items →
      Claims view (bag.insert name (.array (items ++ [item]))) rest after remaining →
      Claims view bag (node :: rest) after remaining

/-- A child at which a run ends: it lacks a name, or it is to be collected under the name of some
other value. -/
inductive Node.Stops (view : View) (bag : Bag) (node : Node) : Failure → Prop where
  | lacking {tag : String} : node.lacking? view = some tag → Stops view bag node (.of (.unnamedChild tag))
  | mixed {name : String} {item : Bag} : node.collected? view = some (name, item) →
      bag.gathered? name = none → Stops view bag node (.of (.mixedAttribute name))

/-- How a run over children ends. -/
inductive Outcome (view : View) (bag : Bag) (nodes : List Node) :
    Except Failure (Bag × List Node) → Prop where
  | through {after : Bag} {remaining : List Node} : Claims view bag nodes after remaining →
      Outcome view bag nodes (.ok (after, remaining))
  | stopped {before rest remaining : List Node} {node : Node} {middle : Bag} {failure : Failure} :
      nodes = before ++ node :: rest → Claims view bag before middle remaining →
      node.Stops view middle failure → Outcome view bag nodes (.error failure)

variable {view : View} {bag after : Bag} {node : Node} {nodes rest remaining : List Node} {name : String}

namespace Outcome

variable {result : Except Failure (Bag × List Node)}

theorem left (free : node.isClaimed view = false) (outcome : Outcome view bag rest result) :
    Outcome view bag (node :: rest) (result >>= fun left => pure (left.1, node :: left.2)) := by
  cases outcome with
  | through claims => exact .through (.left free claims)
  | stopped split claims stops => exact .stopped (congrArg (node :: ·) split) (.left free claims) stops

theorem passed {content : List Node} (passed : node.passed? view = some (name, content))
    (outcome : Outcome view (bag.insert name (.ofContent content)) rest result) :
    Outcome view bag (node :: rest) result := by
  cases outcome with
  | through claims => exact .through (.passed passed claims)
  | stopped split claims stops => exact .stopped (congrArg (node :: ·) split) (.passed passed claims) stops

theorem collected {item : Bag} {items : List Bag} (collected : node.collected? view = some (name, item))
    (gathered : bag.gathered? name = some items)
    (outcome : Outcome view (bag.insert name (.array (items ++ [item]))) rest result) :
    Outcome view bag (node :: rest) result := by
  cases outcome with
  | through claims => exact .through (.collected collected gathered claims)
  | stopped split claims stops =>
      exact .stopped (congrArg (node :: ·) split) (.collected collected gathered claims) stops

end Outcome

/-- Every run goes over all children, or it stops at one of them. -/
theorem outcome_claimContent (view : View) (bag : Bag) (nodes : List Node) :
    Outcome view bag nodes (claimContent view bag nodes) := by
  induction nodes generalizing bag with
  | nil => exact .through .done
  | cons node rest ih =>
      cases node.fate view with
      | left free _ _ _ step =>
          rw [step]
          exact (ih bag).left free
      | passed name content _ passed _ _ step =>
          rw [step]
          exact (ih _).passed passed
      | collected name item _ _ collected _ step =>
          rw [step, Bag.addItem_eq]
          cases gathered : bag.gathered? name with
          | some items => exact (ih _).collected collected gathered
          | none => exact .stopped (List.nil_append _).symm .done (.mixed collected gathered)
      | lacking tag _ _ _ lacking step =>
          rw [step]
          exact .stopped (List.nil_append _).symm .done (.lacking lacking)

theorem claims_of_claimContent (claimed : claimContent view bag nodes = .ok (after, remaining)) :
    Claims view bag nodes after remaining := by
  have outcome := outcome_claimContent view bag nodes
  rw [claimed] at outcome
  cases outcome with | through claims => exact claims

end Stencil
