import Stencil.Proofs.Claiming.Partition

/-! Names under which contents are passed and items are collected.

A run over children stops at an item if some other value stands under its name. It does not
look for items when it passes a content, so a content that comes after all items of its name
takes their place.
-/

set_option autoImplicit false

namespace Stencil

variable {view : View} {bag after : Bag} {nodes remaining : List Node} {name : String}

/-- A child is collected under a name where some other value stands by then: one that the bag has
had, or the content of a child before. -/
def Collides (view : View) (bag : Bag) (nodes : List Node) (name : String) : Prop :=
  ∃ before node rest item, nodes = before ++ node :: rest ∧
    node.collected? view = some (name, item) ∧
    ((∃ value, bag.find? name = some value ∧ ∀ items, value ≠ .array items) ∨
      passedUnder view name before ≠ [])

namespace Claims

theorem exists_middle {before rest : List Node}
    (claims : Claims view bag (before ++ rest) after remaining) :
    ∃ middle left right, Claims view bag before middle left ∧ Claims view middle rest after right := by
  induction before generalizing bag remaining with
  | nil => exact ⟨bag, [], remaining, .done, claims⟩
  | cons node before ih =>
      cases claims with
      | left free others =>
          obtain ⟨middle, left, right, first, second⟩ := ih others
          exact ⟨middle, node :: left, right, .left free first, second⟩
      | passed passed others =>
          obtain ⟨middle, left, right, first, second⟩ := ih others
          exact ⟨middle, left, right, .passed passed first, second⟩
      | collected collected gathered others =>
          obtain ⟨middle, left, right, first, second⟩ := ih others
          exact ⟨middle, left, right, .collected collected gathered first, second⟩

theorem named (claims : Claims view bag nodes after remaining) :
    ∀ node ∈ nodes, node.lacking? view = none := by
  induction claims with
  | done => exact fun _ member => absurd member List.not_mem_nil
  | left free _ ih => exact List.forall_mem_cons.2 ⟨(Node.alone_of_left free).2.2, ih⟩
  | passed passed _ ih => exact List.forall_mem_cons.2 ⟨(Node.alone_of_passed passed).2.2, ih⟩
  | collected collected _ _ ih =>
      exact List.forall_mem_cons.2 ⟨(Node.alone_of_collected collected).2.2, ih⟩

/-- Some other value stands under a name once there was one, or a content was passed under it. -/
theorem gathered?_eq_none_iff (claims : Claims view bag nodes after remaining) (name : String) :
    after.gathered? name = none ↔ bag.gathered? name = none ∨ passedUnder view name nodes ≠ [] := by
  induction claims with
  | done => simp [passedUnder]
  | left free _ ih => simp only [ih, passedUnder_cons, Node.alone_of_left free]
  | @passed bag _ _ _ _ given content passed _ ih =>
      simp only [ih, passedUnder_cons, passed]
      by_cases same : given = name
      · subst same
        simp [Bag.gathered?_insert_content]
      · simp only [Bag.gathered?_insert_of_ne same, if_neg same]
  | @collected bag _ _ _ _ given item items collected gathered _ ih =>
      simp only [ih, passedUnder_cons, Node.alone_of_collected collected]
      by_cases same : given = name
      · subst same
        simp [gathered, Bag.gathered?_insert_array]
      · simp only [Bag.gathered?_insert_of_ne same]

end Claims

/-- A child at which a run stops lacks a name, or collides with what came before. -/
theorem lacks_or_collides {failure : Failure} (stopped : claimContent view bag nodes = .error failure) :
    (∃ node ∈ nodes, ∃ tag, node.lacking? view = some tag ∧ failure = .of (.unnamedChild tag)) ∨
      ∃ name, Collides view bag nodes name ∧ failure = .of (.mixedAttribute name) := by
  have outcome := outcome_claimContent view bag nodes
  rw [stopped] at outcome
  cases outcome with
  | @stopped before rest _ node _ _ split claims stops =>
      cases stops with
      | @lacking tag lacking => exact Or.inl ⟨node, by simp [split], tag, lacking, rfl⟩
      | @mixed name item collected stands =>
          rw [claims.gathered?_eq_none_iff, Bag.gathered?_eq_none_iff] at stands
          exact Or.inr ⟨name, ⟨before, node, rest, item, split, collected, stands⟩, rfl⟩

theorem Claims.not_collides (claims : Claims view bag nodes after remaining) (name : String) :
    ¬ Collides view bag nodes name := by
  rintro ⟨before, node, rest, item, rfl, collected, stands⟩
  obtain ⟨middle, _, _, first, second⟩ := claims.exists_middle
  rw [← Bag.gathered?_eq_none_iff, ← first.gathered?_eq_none_iff] at stands
  cases second with
  | left free => simp [Node.alone_of_left free] at collected
  | passed passed => simp [Node.alone_of_passed passed] at collected
  | collected other gathered =>
      rw [collected] at other
      cases other
      rw [stands] at gathered
      cases gathered

/-- A value and items under one name are reported just where an item comes after the value. In all
other runs the last content that is passed under a name is all that stands there. -/
theorem mixed_reported_iff (view : View) (bag : Bag) (nodes : List Node) :
    ((∃ failure, claimContent view bag nodes = .error failure) ↔
      (∃ node ∈ nodes, node.lacking? view ≠ none) ∨ ∃ name, Collides view bag nodes name) ∧
    ((∀ node ∈ nodes, node.lacking? view = none) →
      ((∃ name, claimContent view bag nodes = .error (.of (.mixedAttribute name))) ↔
        ∃ name, Collides view bag nodes name)) ∧
    ∀ after remaining, claimContent view bag nodes = .ok (after, remaining) →
      ∀ name content, (passedUnder view name nodes).getLast? = some content →
        after.find? name = some (.ofContent content) := by
  have fails (reason : (∃ node ∈ nodes, node.lacking? view ≠ none) ∨ ∃ name, Collides view bag nodes name) :
      ∃ failure, claimContent view bag nodes = .error failure := by
    cases result : claimContent view bag nodes with
    | error failure => exact ⟨failure, rfl⟩
    | ok left =>
        have claims := claims_of_claimContent result
        rcases reason with ⟨node, member, lacking⟩ | ⟨name, collides⟩
        · exact absurd (claims.named node member) lacking
        · exact absurd collides (claims.not_collides name)
  refine ⟨⟨?_, fails⟩, fun named => ⟨?_, fun collides => ?_⟩, ?_⟩
  · rintro ⟨failure, stopped⟩
    rcases lacks_or_collides stopped with ⟨node, member, tag, lacking, -⟩ | ⟨name, collides, -⟩
    · exact Or.inl ⟨node, member, by simp [lacking]⟩
    · exact Or.inr ⟨name, collides⟩
  · rintro ⟨name, stopped⟩
    rcases lacks_or_collides stopped with ⟨node, member, tag, lacking, -⟩ | ⟨other, collides, -⟩
    · simp [named node member] at lacking
    · exact ⟨other, collides⟩
  · obtain ⟨failure, stopped⟩ := fails (Or.inr collides)
    rcases lacks_or_collides stopped with ⟨node, member, tag, lacking, -⟩ | ⟨name, -, rfl⟩
    · simp [named node member] at lacking
    · exact ⟨name, stopped⟩
  · intro after remaining claimed name content last
    rw [(claims_of_claimContent claimed).find?_eq, last]
    rfl

def headerChild : Node :=
  .element ⟨"header", .empty, [.text "a"], false⟩

def headerItem : Node :=
  .element ⟨"array", ⟨[("name", .literal (.string "header"))]⟩, [.text "b"], false⟩

theorem mixed_reported_header :
    (∀ node ∈ [headerChild, headerItem], node.lacking? tabSet = none) ∧
      (∃ name, Collides tabSet .empty [headerChild, headerItem] name) ∧
      ∃ name, claimContent tabSet .empty [headerChild, headerItem] = .error (.of (.mixedAttribute name)) := by
  have named : ∀ node ∈ [headerChild, headerItem], node.lacking? tabSet = none :=
    List.forall_mem_cons.2 ⟨rfl, List.forall_mem_singleton.2 rfl⟩
  have collides : ∃ name, Collides tabSet .empty [headerChild, headerItem] name :=
    ⟨"header", [headerChild], headerItem, [], _, rfl, rfl, Or.inr nofun⟩
  obtain ⟨-, mixed, -⟩ := mixed_reported_iff tabSet .empty [headerChild, headerItem]
  exact ⟨named, collides, (mixed named).2 collides⟩

/-- The item comes first: it is gone, and nothing is reported. -/
theorem not_reported_header :
    headerItem.collected? tabSet = some ("header", ⟨[("content", .ofContent [.text "b"])]⟩) ∧
      headerChild.passed? tabSet = some ("header", [.text "a"]) ∧
      claimContent tabSet .empty [headerItem, headerChild] =
        .ok (⟨[("header", .ofContent [.text "a"])]⟩, []) :=
  ⟨rfl, rfl, rfl⟩

end Stencil
