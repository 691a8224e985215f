import Stencil.Proofs.Derivation.Completeness

/-! Open scopes hold the pieces that were taken, and none else.

The invariant says of every open scope which pieces opened it and that the pieces
after these derive what the scope has collected. A scope closes into a
derivation of one more node of the scope around it.
-/

set_option autoImplicit false

namespace Stencil

variable {blocks : BlockMap}

/-- A node that is still open: its pieces up to the content that is being
collected, and the node with that content empty. -/
inductive Begins (blocks : BlockMap) : List Piece → Node → Prop where
  | element {name : String} {attributes : Dict Attribute} : Markup.isVoid name = false →
      Begins blocks [.start name attributes] (.element ⟨name, attributes, [], false⟩)
  | conditional {opener : Expression} : opener.Opens blocks .conditional →
      Begins blocks [.expression opener] (.conditional (.single opener))
  | each {opener : Expression} : opener.Opens blocks .each →
      Begins blocks [.expression opener] (.each opener [] none)
  | block {opener : Expression} : opener.Opens blocks .generic →
      Begins blocks [.expression opener] (.block opener [])
  -- A block that goes on has begun with all its pieces up to its next part.
  | branch {pieces inside : List Piece} {branches : Branches} {content : List Node}
      {guard : Expression} :
      Begins blocks pieces (.conditional branches) → Derives blocks inside content →
      guard.Continues → Begins blocks (pieces ++ (inside ++ [.expression guard]))
        (.conditional ((branches.fill content).add guard))
  | otherwise {pieces inside : List Piece} {opener expression : Expression}
      {body content : List Node} :
      Begins blocks pieces (.each opener body none) → Derives blocks inside content →
      expression.IsElse → Begins blocks (pieces ++ (inside ++ [.expression expression]))
        (.each opener content (some []))

namespace Begins

/-- An open element has only been started. -/
theorem of_element {pieces : List Piece} {element : Element}
    (begins : Begins blocks pieces (.element element)) :
    ∃ name attributes, Markup.isVoid name = false ∧ pieces = [.start name attributes] ∧
      element = ⟨name, attributes, [], false⟩ := by
  cases begins with
  | element isOpen => exact ⟨_, _, isOpen, rfl, rfl⟩

/-- The branches of an open conditional, with the content of the last one put in. -/
theorem of_conditional {pieces inside : List Piece} {branches : Branches} {content : List Node}
    (begins : Begins blocks pieces (.conditional branches)) (derived : Derives blocks inside content) :
    ∃ opener first body more others, opener.Opens blocks .conditional ∧ Derives blocks first body ∧
      DerivesBranches blocks more others ∧ pieces ++ inside = .expression opener :: (first ++ more) ∧
      branches.fill content = .ofList (⟨opener, body⟩ :: others) := by
  -- By induction on how far the conditional has come: a branch that goes on leaves
  -- the ones before it whole.
  generalize same : Node.conditional branches = node at begins
  induction begins generalizing branches inside content with
  | @conditional opener opens =>
      cases same
      exact ⟨opener, inside, content, [], [], opens, derived, .nil, by simp, rfl⟩
  | @branch pieces inner before collected guard begun derivedInner continues ih =>
      cases same
      obtain ⟨opener, first, body, more, others, opens, derivedFirst, derivedMore, pieced, filled⟩ :=
        ih derivedInner rfl
      refine ⟨opener, first, body, more ++ .expression guard :: inside, others ++ [⟨guard, content⟩],
        opens, derivedFirst, derivedMore.snoc continues derived, ?_, ?_⟩
      · calc
          pieces ++ (inner ++ [.expression guard]) ++ inside
              = pieces ++ inner ++ .expression guard :: inside := by simp
          _ = .expression opener :: (first ++ (more ++ .expression guard :: inside)) := by
            rw [pieced]; simp
      · rw [filled, Branches.add_ofList, Branches.fill_ofList_concat, List.cons_append]
  | element | each | block | otherwise => cases same

/-- The parts of an open loop, with the content of the part that is open put in. -/
theorem of_each {pieces inside : List Piece} {opener : Expression} {body content : List Node}
    {otherwise : Option (List Node)} (begins : Begins blocks pieces (.each opener body otherwise))
    (derived : Derives blocks inside content) :
    ∃ first looped more others, opener.Opens blocks .each ∧ Derives blocks first looped ∧
      DerivesElse blocks more others ∧ pieces ++ inside = .expression opener :: (first ++ more) ∧
      (Node.each opener body otherwise).fill content = .each opener looped others := by
  generalize same : Node.each opener body otherwise = node at begins
  induction begins generalizing body otherwise inside content with
  | each opens =>
      cases same
      exact ⟨inside, content, [], none, opens, derived, .none, by simp, rfl⟩
  | @otherwise pieces inner opener expression before collected begun derivedInner isElse ih =>
      cases same
      obtain ⟨first, looped, more, others, opens, derivedFirst, derivedMore, pieced, filled⟩ :=
        ih derivedInner rfl
      -- The loop had no else part before this one.
      obtain ⟨rfl, rfl⟩ : collected = looped ∧ none = others := by simpa [Node.fill] using filled
      cases derivedMore
      refine ⟨first, collected, .expression expression :: inside, some content, opens, derivedFirst,
        .some isElse derived, ?_, by simp [Node.fill]⟩
      calc
        pieces ++ (inner ++ [.expression expression]) ++ inside
            = pieces ++ inner ++ .expression expression :: inside := by simp
        _ = .expression opener :: (first ++ .expression expression :: inside) := by
          rw [pieced]; simp
  | element | conditional | block | branch => cases same

theorem of_block {pieces : List Piece} {opener : Expression} {content : List Node}
    (begins : Begins blocks pieces (.block opener content)) :
    opener.Opens blocks .generic ∧ pieces = [.expression opener] := by
  cases begins with
  | block opens => exact ⟨opens, rfl⟩

/-- An open block, the content it collects and an ending of it derive the block. -/
theorem close {pieces inside : List Piece} {node : Node} {content : List Node}
    {opener ending : Expression} (begins : Begins blocks pieces node)
    (derived : Derives blocks inside content) (opened : node.opener? = some opener)
    (closes : opener.Closes ending) :
    Derives blocks (pieces ++ inside ++ [.expression ending]) [node.fill content] := by
  cases node with
  | conditional branches =>
      obtain ⟨first, start, body, more, others, opens, derivedBody, derivedMore, pieced, filled⟩ :=
        begins.of_conditional derived
      have head : some first = branches.guards.head? :=
        congrArg (fun branches : Branches => branches.guards.head?) filled.symm
      obtain rfl : first = opener := Option.some.inj (head.trans opened)
      rw [pieced, Node.fill, filled]
      simpa using Derives.conditional opens closes derivedBody derivedMore .nil
  | each first body otherwise =>
      obtain rfl := Option.some.inj opened
      obtain ⟨start, looped, more, others, opens, derivedBody, derivedMore, pieced, filled⟩ :=
        begins.of_each derived
      rw [pieced, filled]
      simpa using Derives.each opens closes derivedBody derivedMore .nil
  | block first body =>
      obtain rfl := Option.some.inj opened
      obtain ⟨opens, rfl⟩ := begins.of_block
      simpa [Node.fill] using Derives.block opens closes derived .nil
  | element | text | dynamic | comment | view | dynamicView => cases opened

end Begins

/-- The pieces that were taken, as the open scopes hold them. -/
inductive Holds (blocks : BlockMap) : List Piece → Scope → Prop where
  | root {pieces : List Piece} {nodes : List Node} :
      Derives blocks pieces nodes → Holds blocks pieces ⟨nodes.reverse, []⟩
  | inner {before opening inside : List Piece} {node : Node} {around content : List Node}
      {outer : List (List Node)} :
      Holds blocks before ⟨around, outer⟩ → Begins blocks opening node →
      Derives blocks inside content →
      Holds blocks (before ++ (opening ++ inside)) ⟨content.reverse, (node :: around) :: outer⟩

namespace Holds

variable {pieces : List Piece} {current around : List Node} {outer : List (List Node)}

theorem extend {more : List Piece} {nodes : List Node} (holds : Holds blocks pieces ⟨current, outer⟩)
    (derived : Derives blocks more nodes) :
    Holds blocks (pieces ++ more) ⟨nodes.reverse ++ current, outer⟩ := by
  cases holds with
  | root earlier =>
      rw [← List.reverse_append]
      exact .root (earlier.append derived)
  | inner below begins earlier =>
      rw [← List.reverse_append, List.append_assoc, List.append_assoc]
      exact .inner below begins (earlier.append derived)

theorem enter {opening : List Piece} {node : Node} (holds : Holds blocks pieces ⟨current, outer⟩)
    (begins : Begins blocks opening node) :
    Holds blocks (pieces ++ opening) ⟨[], (node :: current) :: outer⟩ := by
  have opened := Holds.inner holds begins .nil
  rwa [List.append_nil] at opened

theorem leave {node : Node} (holds : Holds blocks pieces ⟨current, (node :: around) :: outer⟩) :
    ∃ before opening inside, pieces = before ++ (opening ++ inside) ∧
      Holds blocks before ⟨around, outer⟩ ∧ Begins blocks opening node ∧
      Derives blocks inside current.reverse := by
  cases holds with
  | @inner before opening inside _ _ content _ below begins derived =>
      exact ⟨before, opening, inside, rfl, below, begins, by simpa using derived⟩

/-- What closes the innermost scope adds one node to the scope around it. -/
theorem closed {node whole : Node} {piece : Piece}
    (holds : Holds blocks pieces ⟨current, (node :: around) :: outer⟩)
    (derives : ∀ {opening inside}, Begins blocks opening node →
      Derives blocks inside current.reverse → Derives blocks (opening ++ inside ++ [piece]) [whole]) :
    Holds blocks (pieces ++ [piece]) ⟨whole :: around, outer⟩ := by
  obtain ⟨before, opening, inside, rfl, below, begins, derived⟩ := holds.leave
  simpa only [List.append_assoc, List.reverse_singleton, List.singleton_append] using
    below.extend (derives begins derived)

/-- What continues the innermost block opens its next part. -/
theorem continued {node next : Node} {piece : Piece}
    (holds : Holds blocks pieces ⟨current, (node :: around) :: outer⟩)
    (begins : ∀ {opening inside}, Begins blocks opening node →
      Derives blocks inside current.reverse → Begins blocks (opening ++ (inside ++ [piece])) next) :
    Holds blocks (pieces ++ [piece]) ⟨[], (next :: around) :: outer⟩ := by
  obtain ⟨before, opening, inside, rfl, below, begun, derived⟩ := holds.leave
  simpa only [List.append_assoc] using below.enter (begins begun derived)

end Holds

end Stencil
