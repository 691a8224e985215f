import Stencil.Proofs.Scope

/-! What derives nodes runs, and builds these nodes on top of any open scopes. -/

set_option autoImplicit false

namespace Stencil

variable {compiler : Compiler} {context : ViewContext}

/-- An ending puts the content it collected into the block it closes. -/
theorem Expression.Closes.addPiece {opener ending : Expression} {kind : BlockKind} {node : Node}
    {current before : List Node} {outer : List (List Node)} (closes : opener.Closes ending)
    (opens : opener.Opens compiler.blocks kind) (opened : node.opener? = some opener) :
    compiler.addPiece context ⟨current, (node :: before) :: outer⟩ (.expression ending) =
      .ok ⟨node.fill current.reverse :: before, outer⟩ := by
  obtain ⟨keyword, here, -⟩ := opens
  obtain ⟨ends, named⟩ := closes
  rw [here] at named
  rcases named with bare | same
  · rw [Compiler.addPiece_ends ends bare, Scope.closeBlock_eq_ok_iff]
    exact ⟨node, before, outer, opener, rfl, opened, ⟨keyword, here, Or.inl rfl⟩, rfl⟩
  · rw [Compiler.addPiece_ends ends same, Scope.closeBlock_eq_ok_iff]
    exact ⟨node, before, outer, opener, rfl, opened, ⟨keyword, here, Or.inr rfl⟩, rfl⟩

/-- A branch of a conditional starts where the one before it ends. -/
theorem Expression.Continues.addPiece {guard last : Expression} {front : List Branch}
    {content before : List Node} {outer : List (List Node)} (continues : guard.Continues) :
    compiler.addPiece context
        ⟨content.reverse, (.conditional (.ofList (front ++ [⟨last, []⟩])) :: before) :: outer⟩
        (.expression guard) =
      .ok ⟨[], (.conditional (.ofList (front ++ [⟨last, content⟩] ++ [⟨guard, []⟩])) :: before) ::
        outer⟩ := by
  obtain ⟨keyword, here, goesOn⟩ := continues.keyword
  rw [Compiler.addPiece_continues continues.1 here goesOn, Scope.continueBlock_eq_ok_iff]
  exact Or.inl ⟨_, before, outer, rfl, by simp⟩

theorem Expression.IsElse.addPiece {expression opener : Expression} {content before : List Node}
    {outer : List (List Node)} (isElse : expression.IsElse) :
    compiler.addPiece context ⟨content.reverse, (.each opener [] none :: before) :: outer⟩
        (.expression expression) =
      .ok ⟨[], (.each opener content (some []) :: before) :: outer⟩ := by
  rw [Compiler.addPiece_continues isElse.1 isElse.2 rfl, Scope.continueBlock_eq_ok_iff]
  exact Or.inr ⟨opener, [], before, outer, rfl, rfl, by simp⟩

/-- A piece that adds a node by itself comes before the pieces that add the others. -/
theorem Compiler.addPieces_cons_of_single {piece : Piece} {pieces : List Piece} {node : Node}
    {nodes current : List Node} {outer : List (List Node)}
    (taken : compiler.addPiece context ⟨current, outer⟩ piece = .ok (Scope.append ⟨current, outer⟩ node))
    (rest : compiler.addPieces context ⟨node :: current, outer⟩ pieces =
      .ok ⟨nodes.reverse ++ node :: current, outer⟩) :
    compiler.addPieces context ⟨current, outer⟩ (piece :: pieces) =
      .ok ⟨(node :: nodes).reverse ++ current, outer⟩ := by
  rw [Compiler.addPieces_cons_of_ok taken, Scope.append, rest]
  simp

-- The scopes around stay as they are, so the statement holds above any scope;
-- this is what the content of an element or a block needs.
mutual
theorem Derives.addPieces {pieces : List Piece} {nodes : List Node} (current : List Node)
    (outer : List (List Node)) (plain : ∀ piece ∈ pieces, compiler.Plain context piece) :
    Derives compiler.blocks pieces nodes →
      compiler.addPieces context ⟨current, outer⟩ pieces = .ok ⟨nodes.reverse ++ current, outer⟩
  | .nil => rfl
  | .text rest =>
      Compiler.addPieces_cons_of_single rfl (rest.addPieces _ _ (List.forall_mem_cons.1 plain).2)
  | .comment rest =>
      Compiler.addPieces_cons_of_single rfl (rest.addPieces _ _ (List.forall_mem_cons.1 plain).2)
  | .value isValue rest =>
      Compiler.addPieces_cons_of_single (Compiler.addPiece_value isValue) (rest.addPieces _ _ (List.forall_mem_cons.1 plain).2)
  | .void isVoid rest =>
      Compiler.addPieces_cons_of_single (Compiler.addPiece_void isVoid) (rest.addPieces _ _ (List.forall_mem_cons.1 plain).2)
  | .element isOpen inside rest => by
      simp only [List.forall_mem_cons, List.forall_mem_append] at plain
      obtain ⟨keeps, plainInside, -, plainRest⟩ := plain
      rw [Compiler.addPieces_cons_of_ok (Compiler.addPiece_start isOpen),
        Compiler.addPieces_append_of_ok (inside.addPieces _ _ plainInside), List.append_nil,
        Compiler.addPieces_cons_of_ok (Compiler.addPiece_finish keeps), rest.addPieces _ _ plainRest]
      simp
  | @Derives.conditional _ opener _ _ _ _ content _ _ opens closes inside more rest => by
      simp only [List.forall_mem_cons, List.forall_mem_append] at plain
      obtain ⟨-, plainInside, plainMore, -, plainRest⟩ := plain
      obtain ⟨front, guard, last, whole, run⟩ :=
        more.addPieces [] opener content current outer plainMore
      rw [List.nil_append] at run whole
      -- The branches end in an open one, but the first still has the opener.
      have head : (Node.conditional (.ofList (front ++ [⟨guard, []⟩]))).opener? = some opener := by
        have same := congrArg (fun branches => branches.head?.map (·.guard)) whole
        cases front <;> simpa [Node.opener?, Branches.ofList] using same
      rw [Compiler.addPieces_cons_of_ok (Compiler.addPiece_opens opens),
        Compiler.addPieces_append_of_ok (inside.addPieces _ _ plainInside), List.append_nil,
        Scope.blockNode, Branches.single_eq_ofList, Compiler.addPieces_append_of_ok run,
        Compiler.addPieces_cons_of_ok (closes.addPiece opens head), rest.addPieces _ _ plainRest]
      simp [Node.fill, whole]
  | @Derives.each _ opener _ _ _ _ content _ _ opens closes inside more rest => by
      simp only [List.forall_mem_cons, List.forall_mem_append] at plain
      obtain ⟨-, plainInside, plainMore, -, plainRest⟩ := plain
      obtain ⟨node, collected, run, opened, filled⟩ :=
        more.addPieces opener content current outer plainMore
      rw [Compiler.addPieces_cons_of_ok (Compiler.addPiece_opens opens),
        Compiler.addPieces_append_of_ok (inside.addPieces _ _ plainInside), List.append_nil,
        Scope.blockNode, Compiler.addPieces_append_of_ok run,
        Compiler.addPieces_cons_of_ok (closes.addPiece opens opened), rest.addPieces _ _ plainRest]
      simp [filled]
  | .block opens closes inside rest => by
      simp only [List.forall_mem_cons, List.forall_mem_append] at plain
      obtain ⟨-, plainInside, -, plainRest⟩ := plain
      rw [Compiler.addPieces_cons_of_ok (Compiler.addPiece_opens opens),
        Compiler.addPieces_append_of_ok (inside.addPieces _ _ plainInside), List.append_nil,
        Scope.blockNode, Compiler.addPieces_cons_of_ok (closes.addPiece opens rfl),
        rest.addPieces _ _ plainRest]
      simp [Node.fill]

/-- The branches run from where the first content is collected to where the last
content is; put together they are the branches of the conditional. -/
theorem DerivesBranches.addPieces {pieces : List Piece} {branches : List Branch}
    (front : List Branch) (guard : Expression) (content before : List Node)
    (outer : List (List Node)) (plain : ∀ piece ∈ pieces, compiler.Plain context piece) :
    DerivesBranches compiler.blocks pieces branches →
      ∃ front' guard' content', front' ++ [⟨guard', content'⟩] = front ++ ⟨guard, content⟩ :: branches ∧
        compiler.addPieces context
            ⟨content.reverse, (.conditional (.ofList (front ++ [⟨guard, []⟩])) :: before) :: outer⟩
            pieces =
          .ok ⟨content'.reverse, (.conditional (.ofList (front' ++ [⟨guard', []⟩])) :: before) :: outer⟩
  | .nil => ⟨front, guard, content, rfl, rfl⟩
  | @DerivesBranches.cons _ next _ _ inner _ continues inside more => by
      simp only [List.forall_mem_cons, List.forall_mem_append] at plain
      obtain ⟨-, plainInside, plainMore⟩ := plain
      obtain ⟨front', guard', content', whole, run⟩ :=
        more.addPieces (front ++ [⟨guard, content⟩]) next inner before outer plainMore
      refine ⟨front', guard', content', by simpa using whole, ?_⟩
      rw [Compiler.addPieces_cons_of_ok continues.addPiece,
        Compiler.addPieces_append_of_ok (inside.addPieces _ _ plainInside), List.append_nil, run]

/-- The else part of a loop runs from where the body is collected to a node that
closes as the whole loop. -/
theorem DerivesElse.addPieces {pieces : List Piece} {otherwise : Option (List Node)}
    (opener : Expression) (content before : List Node) (outer : List (List Node))
    (plain : ∀ piece ∈ pieces, compiler.Plain context piece) :
    DerivesElse compiler.blocks pieces otherwise →
      ∃ node collected, compiler.addPieces context
            ⟨content.reverse, (.each opener [] none :: before) :: outer⟩ pieces =
          .ok ⟨collected.reverse, (node :: before) :: outer⟩ ∧
        node.opener? = some opener ∧ node.fill collected = .each opener content otherwise
  | .none => ⟨.each opener [] none, content, rfl, rfl, rfl⟩
  | @DerivesElse.some _ _ _ inner isElse inside => by
      simp only [List.forall_mem_cons] at plain
      refine ⟨.each opener content (some []), inner, ?_, rfl, rfl⟩
      rw [Compiler.addPieces_cons_of_ok isElse.addPiece, inside.addPieces _ _ plain.2, List.append_nil]
end

end Stencil
