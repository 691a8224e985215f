import Stencil.Proofs.Built

/-! What views take over from the elements and expressions that refer to them.

A reference moves the attributes and the content of an element into a bag, and some of them
into bags within it, and makes no nodes but those of single expressions. So a property of
nodes goes over to references if it holds of one whose bag wraps only such nodes.
-/

set_option autoImplicit false

namespace Stencil

variable {P : Node → Prop}

/-- The property holds of what an attribute stands for. -/
def Attribute.Holds (P : Node → Prop) : Attribute → Prop
  | .literal _ => True
  | .dynamic expression => P (.dynamic expression)
  | .template content => ∀ node ∈ content, P node

/-- The property holds of the attributes and the content of an element. -/
structure Element.Holds (P : Node → Prop) (element : Element) : Prop where
  attributes : ∀ entry ∈ element.attributes.entries, entry.2.Holds P
  content : ∀ node ∈ element.content, P node

/-- The property holds of all that a bag wraps. -/
structure Bag.Holds (P : Node → Prop) (bag : Bag) : Prop where
  nodes : ∀ content expression, bag.Wraps content expression → ∀ node ∈ content, P node
  values : ∀ content expression, bag.Wraps content (some expression) → P (.dynamic expression)

/-- The property holds of what one attribute adds to a bag. -/
inductive ViewAttribute.Holds (P : Node → Prop) : ViewAttribute → Prop where
  | literal {value : Value} : Holds P (.literal value)
  | wrapper {content : List Node} {expression : Option Expression} :
      (∀ node ∈ content, P node) → (∀ single, expression = some single → P (.dynamic single)) →
      Holds P (.wrapper content expression)
  | array {bags : List Bag} : (∀ bag ∈ bags, bag.Holds P) → Holds P (.array bags)

/-- A property that elements share with what they hold, and that references take over from
their bags. -/
structure Node.Composes (P : Node → Prop) : Prop where
  element : ∀ element, P (.element element) → element.Holds P
  bare : ∀ expr, P (.dynamic (.ofExpr expr))
  view : ∀ (view : View) (bag : Bag), bag.Holds P → P (.view view bag)
  named : ∀ (expression : Expression) (bag : Bag), P (.dynamic expression) → bag.Holds P →
    P (.dynamicView (.expression expression) bag)
  templateNamed : ∀ (content : List Node) (bag : Bag), (∀ node ∈ content, P node) → bag.Holds P →
    P (.dynamicView (.template content) bag)

namespace ViewAttribute

theorem holds_ofExpression {expression : Expression} (holds : P (.dynamic expression)) :
    (ofExpression expression).Holds P := by
  refine .wrapper ?_ ?_
  · intro node member
    obtain rfl := List.mem_singleton.1 member
    exact holds
  · rintro single ⟨⟩
    exact holds

theorem holds_ofContent {content : List Node} (holds : ∀ node ∈ content, P node) :
    (ofContent content).Holds P :=
  .wrapper holds fun _ none => by cases none

theorem holds_ofAttribute {value : Attribute} (holds : value.Holds P) : (ofAttribute value).Holds P := by
  cases value with
  | literal value => exact .literal
  | dynamic expression => exact holds_ofExpression holds
  | template content => exact holds_ofContent holds

end ViewAttribute

namespace Bag

variable {bag : Bag} {name : String}

theorem holds_of_entries (holds : ∀ entry ∈ bag.entries, entry.2.Holds P) : bag.Holds P := by
  constructor
  · intro content expression wraps
    cases wraps with
    | wrapper entry => cases holds _ entry with | wrapper nodes _ => exact nodes
    | array entry member wraps =>
        cases holds _ entry with | array bags => exact (bags _ member).nodes _ _ wraps
  · intro content expression wraps
    cases wraps with
    | wrapper entry => cases holds _ entry with | wrapper _ values => exact values _ rfl
    | array entry member wraps =>
        cases holds _ entry with | array bags => exact (bags _ member).values _ _ wraps

theorem Holds.entries (holds : bag.Holds P) : ∀ entry ∈ bag.entries, entry.2.Holds P := by
  rintro ⟨name, value⟩ member
  cases value with
  | literal value => exact .literal
  | wrapper content expression =>
      refine .wrapper (holds.nodes _ _ (.wrapper member)) ?_
      rintro single rfl
      exact holds.values _ _ (.wrapper member)
  | array bags =>
      refine .array fun inner among => ⟨?_, ?_⟩
      · exact fun content expression wraps => holds.nodes _ _ (.array member among wraps)
      · exact fun content expression wraps => holds.values _ _ (.array member among wraps)

theorem holds_empty : Bag.Holds P .empty :=
  holds_of_entries fun _ member => absurd member List.not_mem_nil

theorem Holds.insert {value : ViewAttribute} (holds : bag.Holds P) (added : value.Holds P)
    (name : String) : Bag.Holds P (bag.insert name value) := by
  refine holds_of_entries fun entry member => ?_
  rcases Dict.eq_or_mem_of_mem_put member with rfl | old
  · exact added
  · exact holds.entries entry old

theorem Holds.addContent {content : List Node} (holds : bag.Holds P)
    (nodes : ∀ node ∈ content, P node) : (bag.addContent content).Holds P := by
  unfold Bag.addContent
  split
  · exact holds
  · exact holds.insert (ViewAttribute.holds_ofContent nodes) _

theorem Holds.addItem {item after : Bag} (holds : bag.Holds P) (added : item.Holds P)
    (passed : bag.addItem name item = .ok after) : after.Holds P := by
  unfold Bag.addItem at passed
  split at passed
  · cases passed
    refine holds.insert (.array ?_) name
    simpa using added
  · rename_i items found
    cases passed
    -- The items so far are in the bag under that name.
    have old : (ViewAttribute.array items).Holds P :=
      holds.entries (name, .array items) (Dict.mem_of_find? found)
    cases old with
    | array bags =>
        refine holds.insert (.array fun inner member => ?_) name
        rcases List.mem_append.1 member with among | last
        · exact bags inner among
        · obtain rfl := List.mem_singleton.1 last
          exact added
  · exact absurd passed (by simp)

theorem holds_ofAttributes {attributes : Dict Attribute}
    (holds : ∀ entry ∈ attributes.entries, entry.2.Holds P) : (Bag.ofAttributes attributes).Holds P := by
  refine List.foldlRecOn attributes.entries _ holds_empty fun bag before entry member => ?_
  exact before.insert (ViewAttribute.holds_ofAttribute (holds entry member)) _

/-- The bag of an object has literals and single expressions. -/
theorem holds_ofExpr (bare : ∀ expr, P (.dynamic (.ofExpr expr))) {source : String}
    {object : Option Expr} (read : Bag.ofExpr source object = .ok bag) : bag.Holds P := by
  unfold Bag.ofExpr at read
  split at read
  · cases read
    exact holds_empty
  · rename_i members
    cases read
    refine List.foldlRecOn members.entries _ holds_empty fun bag holds entry _ => ?_
    exact holds.insert .literal entry.1
  · split at read
    · apply Bag.ofPairs_induction read holds_empty
      · intro bag name value holds
        exact holds.insert .literal name
      · intro bag name value holds
        exact holds.insert (ViewAttribute.holds_ofExpression (bare value)) name
    · exact absurd read (by simp)
  · exact absurd read (by simp)

end Bag

namespace Element

/-- The element that a claim takes. -/
def Claim.taken : Claim → Element
  | .passed _ child | .collected _ child => child

variable {element : Element}

theorem Holds.erase (holds : element.Holds P) (name : String) :
    ({ element with attributes := element.attributes.erase name } : Element).Holds P where
  attributes entry member := holds.attributes entry (List.mem_filter.1 member).1
  content := holds.content

theorem Holds.bag (holds : element.Holds P) : element.bag.Holds P :=
  (Bag.holds_ofAttributes holds.attributes).addContent holds.content

theorem Holds.takeName {name : String} {rest : Element} (holds : element.Holds P)
    (taken : element.takeName = .ok (name, rest)) : rest.Holds P := by
  unfold Element.takeName at taken
  split at taken
  · split at taken
    · exact absurd taken (by simp)
    · cases taken
      exact holds.erase "name"
  · exact absurd taken (by simp)

theorem Holds.claim? {view : View} {claim : Claim} (holds : element.Holds P)
    (claimed : element.claim? view = .ok (some claim)) : claim.taken.Holds P := by
  unfold Element.claim? at claimed
  split at claimed
  · obtain ⟨⟨name, rest⟩, taken, same⟩ := bind_eq_ok_iff.1 claimed
    cases same
    exact holds.takeName taken
  split at claimed
  · cases claimed
    exact holds
  split at claimed
  · obtain ⟨⟨name, rest⟩, taken, same⟩ := bind_eq_ok_iff.1 claimed
    cases same
    exact holds.takeName taken
  split at claimed
  · cases claimed
    exact holds
  · cases claimed

theorem Claim.holds_addTo {claim : Claim} {bag after : Bag} (holds : bag.Holds P)
    (taken : claim.taken.Holds P) (added : claim.addTo bag = .ok after) : after.Holds P := by
  cases claim with
  | passed name element =>
      cases added
      exact holds.insert (ViewAttribute.holds_ofContent taken.content) name
  | collected name element => exact holds.addItem taken.bag added

end Element

namespace Node.Composes

variable {context : ViewContext} {element : Element} {node : Node}

/-- Claiming moves nodes into the bag, and leaves the others as they are. -/
theorem claimContent (composes : Node.Composes P) {view : View} {nodes remaining : List Node}
    {bag after : Bag} (holds : bag.Holds P) (here : ∀ node ∈ nodes, P node)
    (claimed : claimContent view bag nodes = .ok (after, remaining)) :
    after.Holds P ∧ ∀ node ∈ remaining, P node := by
  induction nodes generalizing bag remaining with
  | nil =>
      cases claimed
      exact ⟨holds, here⟩
  | cons node rest ih =>
      obtain ⟨first, later⟩ := List.forall_mem_cons.1 here
      have skip (skipped : (Stencil.claimContent view bag rest >>= fun left =>
          pure (left.1, node :: left.2)) = .ok (after, remaining)) :
          after.Holds P ∧ ∀ node ∈ remaining, P node := by
        obtain ⟨⟨next, left⟩, others, same⟩ := bind_eq_ok_iff.1 skipped
        cases same
        obtain ⟨bag, nodes⟩ := ih holds later others
        exact ⟨bag, List.forall_mem_cons.2 ⟨first, nodes⟩⟩
      simp only [Stencil.claimContent] at claimed
      -- Only an element is claimed.
      split at claimed
      · obtain ⟨claim, found, claimed⟩ := bind_eq_ok_iff.1 claimed
        cases claim with
        | some claim =>
            obtain ⟨next, added, others⟩ := bind_eq_ok_iff.1 claimed
            have own := (composes.element _ first).claim? found
            exact ih (Element.Claim.holds_addTo holds own added) later others
        | none => exact skip claimed
      · exact skip claimed

theorem ofViewElement (composes : Node.Composes P) {view : View} (holds : element.Holds P)
    (made : Node.ofViewElement view element = .ok node) : P node := by
  obtain ⟨⟨bag, remaining⟩, claimed, same⟩ := bind_eq_ok_iff.1 made
  cases same
  obtain ⟨claims, left⟩ :=
    composes.claimContent (Bag.holds_ofAttributes holds.attributes) holds.content claimed
  exact composes.view _ _ (claims.addContent left)

theorem viewElement (composes : Node.Composes P) (holds : element.Holds P)
    (made : context.viewElement element = .ok node) : P node := by
  have rest := holds.erase "name"
  simp only [ViewContext.viewElement] at made
  split at made
  · split at made
    · exact absurd made (by simp)
    · obtain ⟨view, -, made⟩ := bind_eq_ok_iff.1 made
      exact composes.ofViewElement rest made
  · rename_i expression found
    cases made
    exact composes.named _ _ (holds.attributes _ (Dict.mem_of_find? found)) rest.bag
  · rename_i content found
    cases made
    exact composes.templateNamed _ _ (holds.attributes _ (Dict.mem_of_find? found)) rest.bag
  · exact absurd made (by simp)

/-- What is read into a bag is passed to the view of a name, known or not. -/
theorem reference (composes : Node.Composes P) {source : String} (name : Expr) (object : Option Expr)
    (made : (do
      let bag ← Bag.ofExpr source object
      match name with
      | .literal (.string name) => do
          let view ← context.findView name
          pure (Node.view view bag)
      | .path _ | .call _ _ | .operator _ _ => pure (Node.dynamicView (.expression (.ofExpr name)) bag)
      | _ => .error (.of (.misplacedExpression source))) = .ok node) : P node := by
  obtain ⟨bag, read, made⟩ := bind_eq_ok_iff.1 made
  have holds : bag.Holds P := Bag.holds_ofExpr composes.bare read
  split at made
  · obtain ⟨view, -, same⟩ := bind_eq_ok_iff.1 made
    cases same
    exact composes.view _ _ holds
  -- A name that is no text is a tree without marks.
  iterate 3
    · cases made
      exact composes.named _ _ (composes.bare _) holds
  · exact absurd made (by simp)

theorem viewExpression (composes : Node.Composes P) {expression : Expression}
    (made : context.viewExpression expression = .ok node) : P node := by
  simp only [ViewContext.viewExpression] at made
  split at made
  · cases made
  · exact composes.reference _ none made
  · exact composes.reference _ (some _) made
  · cases made
  · exact composes.reference _ none made

/-- An element that closes stands for itself or for a view. -/
theorem closed (composes : Node.Composes P) {compiler : Compiler} (holds : element.Holds P)
    (same : compiler.Keeps context element.tag → P (.element element))
    (closed : compiler.closed context element = .ok node) : P node := by
  by_cases named : element.tag = "view"
  · simp only [Compiler.closed, if_pos named] at closed
    exact composes.viewElement holds closed
  simp only [Compiler.closed, if_neg named] at closed
  split at closed
  · split at closed
    · exact composes.ofViewElement holds closed
    · rename_i unknown
      cases closed
      exact same (Compiler.keeps_of_element?_eq_none named unknown)
  · rename_i plain
    cases closed
    -- The element would be kept with any other content as well.
    refine same fun other tagged => ?_
    simp only [Compiler.closed, tagged, if_neg named, if_neg plain]

end Node.Composes

/-- The property holds of the attributes that a piece brings with it. -/
def Piece.Holds (P : Node → Prop) : Piece → Prop
  | .start _ attributes => ∀ entry ∈ attributes.entries, entry.2.Holds P
  | _ => True

namespace Compiler

variable {compiler : Compiler} {context : ViewContext}

theorem holds_of_attributeOf? {content : Template} {value : Attribute} (holds : ∀ node ∈ content, P node)
    (found : attributeOf? content = some value) : value.Holds P := by
  unfold attributeOf? at found
  split at found
  · cases found
  · cases found
    trivial
  · split at found
    · cases found
      trivial
    · cases found
      exact holds _ List.mem_cons_self
  · cases found
    exact holds

/-- Attributes hold what their values compile to. -/
theorem holds_attributes {written : List (String × Option String)} {attributes : Dict Attribute}
    (values : ∀ name value, (name, some value) ∈ written → ∀ content,
      compiler.compileString context (unescapeEntities value) = .ok content → ∀ node ∈ content, P node)
    (compiled : compiler.attributes context written = .ok attributes) :
    ∀ entry ∈ attributes.entries, entry.2.Holds P := by
  apply foldlM_induction compiled
  · exact fun _ absent => absurd absent List.not_mem_nil
  · rintro before ⟨name, written⟩ after holds member inserted
    obtain ⟨value, here, same⟩ := bind_eq_ok_iff.1 inserted
    cases same
    intro entry among
    rcases Dict.eq_or_mem_of_mem_put among with rfl | old
    · change value.Holds P
      cases written with
      | none =>
          cases here
          trivial
      | some text =>
          simp only [attributeFor] at here
          split at here
          · cases here
            trivial
          · obtain ⟨content, accepted, chosen⟩ := bind_eq_ok_iff.1 here
            split at chosen
            · rename_i found
              cases chosen
              exact holds_of_attributeOf? (values _ _ member content accepted) found
            · cases chosen
    · exact holds entry old

theorem holds_of_mem_markupPieces {source : String} {pieces : List Piece}
    (values : ∀ tag name written, .startTag tag name written ∈ Markup.events source →
      ∀ key value, (key, some value) ∈ written → ∀ content,
        compiler.compileString context (unescapeEntities value) = .ok content → ∀ node ∈ content, P node)
    (read : compiler.markupPieces context source = .ok pieces) :
    ∀ piece ∈ pieces, piece.Holds P := by
  intro piece member
  obtain ⟨event, occurs, brings⟩ := exists_brings_of_mem_markupPieces read member
  cases brings with
  | start compiled => exact holds_attributes (values _ _ _ occurs) compiled
  | text here among =>
      rcases text_or_expression_of_mem_textPieces here among with ⟨_, rfl⟩ | ⟨_, rfl⟩ <;> trivial
  | finish | comment | other => trivial

end Compiler

end Stencil
