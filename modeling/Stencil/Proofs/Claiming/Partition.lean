import Stencil.Proofs.Claiming
import Stencil.Proofs.Entries

/-! What a view finds in its bag once children are claimed.

The children that are left keep their order. Each name is looked at alone: items are added to
its array, up to the first child that is passed under it, and from then on the last such
child counts. Keys stand in the order of their first insertion.
-/

set_option autoImplicit false

namespace Stencil

/-- What stands under a name once items are collected under it. -/
def ViewAttribute.extended : Option ViewAttribute → List Bag → Option ViewAttribute
  | value, [] => value
  | some (.array before), items => some (.array (before ++ items))
  | _, items => some (.array items)

/-- One more item comes before all others that are still to be collected. -/
theorem ViewAttribute.extended_of_gathered {bag : Bag} {name : String} {items : List Bag}
    (gathered : bag.gathered? name = some items) (item : Bag) (rest : List Bag) :
    extended (some (.array (items ++ [item]))) rest = extended (bag.find? name) (item :: rest) := by
  have joined : extended (some (.array (items ++ [item]))) rest = some (.array (items ++ item :: rest)) := by
    cases rest <;> simp [extended]
  rw [joined]
  unfold Bag.gathered? at gathered
  split at gathered
  · rename_i unknown
    cases gathered
    rw [unknown]
    rfl
  · rename_i before known
    cases gathered
    rw [known]
    rfl
  · cases gathered

variable {view : View} {bag after : Bag} {node : Node} {nodes rest remaining : List Node} {name : String}

/-- The contents that are passed under a name, in document order. -/
def passedUnder (view : View) (name : String) (nodes : List Node) : List (List Node) :=
  nodes.filterMap fun node => (node.passed? view).bind fun entry =>
    if entry.1 = name then some entry.2 else none

/-- The items that are collected under a name, in document order. -/
def collectedUnder (view : View) (name : String) (nodes : List Node) : List Bag :=
  nodes.filterMap fun node => (node.collected? view).bind fun entry =>
    if entry.1 = name then some entry.2 else none

theorem passedUnder_cons (view : View) (name : String) (node : Node) (rest : List Node) :
    passedUnder view name (node :: rest) =
      match node.passed? view with
      | some (given, content) =>
          if given = name then content :: passedUnder view name rest else passedUnder view name rest
      | none => passedUnder view name rest := by
  simp only [passedUnder, List.filterMap_cons]
  cases node.passed? view with
  | none => rfl
  | some entry => by_cases same : entry.1 = name <;> simp [same]

theorem collectedUnder_cons (view : View) (name : String) (node : Node) (rest : List Node) :
    collectedUnder view name (node :: rest) =
      match node.collected? view with
      | some (given, item) =>
          if given = name then item :: collectedUnder view name rest else collectedUnder view name rest
      | none => collectedUnder view name rest := by
  simp only [collectedUnder, List.filterMap_cons]
  cases node.collected? view with
  | none => rfl
  | some entry => by_cases same : entry.1 = name <;> simp [same]

namespace Claims

theorem remaining_eq (claims : Claims view bag nodes after remaining) :
    remaining = nodes.filter fun node => !node.isClaimed view := by
  induction claims with
  | done => rfl
  | left free _ ih => rw [List.filter_cons_of_pos (by simp [free]), ih]
  | passed passed _ ih => rw [List.filter_cons_of_neg (by simp [Node.alone_of_passed passed]), ih]
  | collected collected _ _ ih =>
      rw [List.filter_cons_of_neg (by simp [Node.alone_of_collected collected]), ih]

/-- Each claimed child is passed or collected, and not both. -/
theorem passed_or_collected (claims : Claims view bag nodes after remaining) :
    ∀ node ∈ nodes, node.isClaimed view = true →
      (node.passed? view).isSome = (node.collected? view).isNone := by
  induction claims with
  | done => exact fun _ member => absurd member List.not_mem_nil
  | left free _ ih =>
      refine List.forall_mem_cons.2 ⟨fun taken => ?_, ih⟩
      rw [free] at taken
      cases taken
  | passed passed _ ih =>
      exact List.forall_mem_cons.2 ⟨fun _ => by simp [passed, Node.alone_of_passed passed], ih⟩
  | collected collected _ _ ih =>
      exact List.forall_mem_cons.2 ⟨fun _ => by simp [collected, Node.alone_of_collected collected], ih⟩

theorem keys_eq (claims : Claims view bag nodes after remaining) :
    after.keys = bag.keysWith (nodes.filterMap (·.claimedName? view)) := by
  induction claims with
  | done => rw [List.filterMap_nil, Dict.keysWith_nil]
  | left free _ ih =>
      rw [ih, List.filterMap_cons_none]
      simp [Node.claimedName?, Node.alone_of_left free]
  | @passed _ _ _ _ _ name _ passed _ ih =>
      rw [ih, Dict.keysWith_insert, List.filterMap_cons_some (b := name)]
      simp [Node.claimedName?, passed]
  | @collected _ _ _ _ _ name _ _ collected _ _ ih =>
      rw [ih, Dict.keysWith_insert, List.filterMap_cons_some (b := name)]
      simp [Node.claimedName?, collected, Node.alone_of_collected collected]

/-- Once some other value stands under a name, nothing can be collected under it. -/
theorem collectedUnder_eq_nil (claims : Claims view bag nodes after remaining)
    (stands : bag.gathered? name = none) : collectedUnder view name nodes = [] := by
  induction claims with
  | done => rfl
  | left free _ ih => simp [collectedUnder_cons, Node.alone_of_left free, ih stands]
  | @passed bag _ _ _ _ given content passed _ ih =>
      simp only [collectedUnder_cons, Node.alone_of_passed passed]
      apply ih
      by_cases same : given = name
      · subst same
        exact Bag.gathered?_insert_content bag given content
      · rwa [Bag.gathered?_insert_of_ne same]
  | @collected bag _ _ _ _ given item _ collected gathered _ ih =>
      have other : given ≠ name := by
        rintro rfl
        rw [stands] at gathered
        cases gathered
      rw [Bag.gathered?_insert_of_ne other] at ih
      simp [collectedUnder_cons, collected, other, ih stands]

/-- What stands under a name in the end: the last content that is passed under it, or else what
was there before, with all items that are collected under it. -/
theorem find?_eq (claims : Claims view bag nodes after remaining) (name : String) :
    after.find? name =
      ((passedUnder view name nodes).getLast?.map .ofContent).or
        (ViewAttribute.extended (bag.find? name) (collectedUnder view name nodes)) := by
  induction claims with
  | done => rfl
  | left free _ ih => simp only [ih, passedUnder_cons, collectedUnder_cons, Node.alone_of_left free]
  | @passed bag _ _ rest _ given content passed others ih =>
      simp only [ih, passedUnder_cons, collectedUnder_cons, Node.alone_of_passed passed, passed]
      by_cases same : given = name
      · subst same
        -- Items could no longer be collected, so none of them is lost.
        have noItems := others.collectedUnder_eq_nil (Bag.gathered?_insert_content bag given content)
        rw [if_pos rfl, noItems, List.getLast?_cons, Dict.find?_insert, beq_self_eq_true, if_pos rfl]
        cases (passedUnder view given rest).getLast? <;> rfl
      · have apart : (name == given) = false := by simpa using Ne.symm same
        simp only [if_neg same, Dict.find?_insert, apart, Bool.false_eq_true, if_false]
  | @collected bag _ _ rest _ given item items collected gathered others ih =>
      simp only [ih, passedUnder_cons, collectedUnder_cons, Node.alone_of_collected collected, collected]
      by_cases same : given = name
      · subst same
        rw [if_pos rfl, Dict.find?_insert, beq_self_eq_true, if_pos rfl,
          ViewAttribute.extended_of_gathered gathered]
      · have apart : (name == given) = false := by simpa using Ne.symm same
        simp only [if_neg same, Dict.find?_insert, apart, Bool.false_eq_true, if_false]

end Claims

/-- Claiming parts the children of an element into those that are left, in their order, and those
that the bag takes, each one once and by its name alone. -/
theorem claimContent_partition (claimed : claimContent view bag nodes = .ok (after, remaining)) :
    remaining = nodes.filter (fun node => !node.isClaimed view) ∧
      (∀ node ∈ nodes, node.isClaimed view = true →
        (node.passed? view).isSome = (node.collected? view).isNone) ∧
      (∀ name, bag.find? name = none → passedUnder view name nodes = [] →
        collectedUnder view name nodes ≠ [] →
        after.find? name = some (.array (collectedUnder view name nodes))) ∧
      (∀ name content, collectedUnder view name nodes = [] →
        (passedUnder view name nodes).getLast? = some content →
        after.find? name = some (.ofContent content)) ∧
      (∀ name, passedUnder view name nodes = [] → collectedUnder view name nodes = [] →
        after.find? name = bag.find? name) ∧
      after.keys =
        bag.keys ++ ((nodes.filterMap (·.claimedName? view)).filter (· ∉ bag.keys)).eraseDups := by
  have claims := claims_of_claimContent claimed
  refine ⟨claims.remaining_eq, claims.passed_or_collected, ?_, ?_, ?_, claims.keys_eq⟩
  · intro name absent notPassed someItem
    obtain ⟨item, items, same⟩ := List.exists_cons_of_ne_nil someItem
    rw [claims.find?_eq, absent, notPassed, same]
    rfl
  · intro name content _ last
    rw [claims.find?_eq, last]
    rfl
  · intro name notPassed noItem
    rw [claims.find?_eq, notPassed, noItem]
    rfl

/-- A view that declares an attribute and an array. -/
def tabSet : View :=
  ⟨"tabs", "", false, ["header"], ["tab"], some "tab-set"⟩

def tabChildren : List Node :=
  [.element ⟨"tab", ⟨[("label", .literal (.string "A"))]⟩, [.text "one"], false⟩,
    .text " ",
    .element ⟨"header", .empty, [.text "Draft"], false⟩,
    .element ⟨"array", ⟨[("name", .literal (.string "extra"))]⟩, [.text "three"], false⟩,
    .element ⟨"tab", ⟨[("name", .literal (.string "B"))]⟩, [.text "two"], false⟩,
    .element ⟨"p", .empty, [.text "rest"], false⟩,
    .element ⟨"attribute", ⟨[("name", .literal (.string "header"))]⟩, [.text "Title"], false⟩]

def tabBag : Bag :=
  ⟨[("id", .literal (.string "main")), ("header", .ofContent [.text "Title"]),
    ("tab", .array
      [⟨[("label", .literal (.string "A")), ("content", .ofContent [.text "one"])]⟩,
        ⟨[("name", .literal (.string "B")), ("content", .ofContent [.text "two"])]⟩]),
    ("extra", .array [⟨[("content", .ofContent [.text "three"])]⟩])]⟩

theorem claimContent_partition_tabs :
    let bag : Bag := ⟨[("id", .literal (.string "main")), ("header", .literal (.string "None"))]⟩
    claimContent tabSet bag tabChildren =
        .ok (tabBag, [.text " ", .element ⟨"p", .empty, [.text "rest"], false⟩]) ∧
      tabBag.find? "tab" = some (.array (collectedUnder tabSet "tab" tabChildren)) ∧
      tabBag.find? "header" = some (.ofContent [.text "Title"]) ∧
      tabBag.find? "id" = bag.find? "id" ∧
      tabBag.keys = ["id", "header", "tab", "extra"] := by
  intro bag
  have claimed : claimContent tabSet bag tabChildren =
      .ok (tabBag, [.text " ", .element ⟨"p", .empty, [.text "rest"], false⟩]) := rfl
  obtain ⟨-, -, arrays, contents, others, keys⟩ := claimContent_partition claimed
  exact ⟨claimed, arrays "tab" rfl rfl nofun, contents "header" _ rfl rfl, others "id" rfl rfl, keys⟩

end Stencil
