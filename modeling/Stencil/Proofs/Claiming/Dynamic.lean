import Stencil.Proofs.Claiming.Collision

/-! References by a name that is known when the template is rendered.

Such a reference claims no children: its bag is that of the element, with the whole content by
default. So it agrees with the reference to a known view only if this leaves all children
as well, or if what it claims is in the bag already and the content is given in an attribute.
-/

set_option autoImplicit false

namespace Stencil

namespace Bag

theorem contains_iff {bag : Bag} {name : String} : bag.contains name = true ↔ name ∈ bag.keys := by
  rw [Dict.contains, Option.isSome_iff_ne_none, ne_eq, Dict.find?_eq_none_iff, not_not]

theorem nodup_ofAttributes (attributes : Dict Attribute) : (ofAttributes attributes).keys.Nodup := by
  refine List.foldlRecOn (motive := fun bag : Bag => bag.keys.Nodup) attributes.entries _ ?_ ?_
  · exact List.nodup_nil
  · exact fun _ distinct _ _ => Dict.nodup_insert distinct _ _

/-- Attributes do not make arrays. -/
theorem find?_ofAttributes_ne_array (attributes : Dict Attribute) (name : String) (items : List Bag) :
    (ofAttributes attributes).find? name ≠ some (.array items) := by
  have single : ∀ entry ∈ (ofAttributes attributes).entries, entry.2 ≠ .array items := by
    refine List.foldlRecOn (motive := fun bag : Bag => ∀ entry ∈ bag.entries, entry.2 ≠ .array items)
      attributes.entries _ ?_ ?_
    · exact fun _ member => absurd member List.not_mem_nil
    · rintro bag before ⟨name, value⟩ - added member
      rcases Dict.eq_or_mem_of_mem_put member with rfl | old
      · cases value <;> nofun
      · exact before added old
  exact fun found => single _ (Dict.mem_of_find? found) rfl

theorem addContent_of_contains {bag : Bag} (given : bag.contains contentName = true) (content : List Node) :
    bag.addContent content = bag := by
  simp [addContent, given]

end Bag

namespace Node

variable {view : View} {node : Node} {name : String} {content : List Node}

theorem exists_element_of_passed (passed : node.passed? view = some (name, content)) :
    ∃ child, node = .element child ∧ child.content = content := by
  cases node with
  | element child =>
      refine ⟨child, rfl, ?_⟩
      simp only [passed?] at passed
      split at passed
      · obtain ⟨given, -, same⟩ := Option.map_eq_some_iff.1 passed
        exact congrArg Prod.snd same
      · split at passed
        · exact congrArg Prod.snd (Option.some.inj passed)
        · cases passed
  | _ => cases passed

/-- What is passed of a child is not the list that the child is in. -/
theorem content_ne_of_passed {nodes : List Node} (member : node ∈ nodes)
    (passed : node.passed? view = some (name, content)) : content ≠ nodes := by
  rintro rfl
  obtain ⟨child, rfl, same⟩ := exists_element_of_passed passed
  have smaller := List.sizeOf_lt_of_mem member
  obtain ⟨tag, attributes, inner, isVoid⟩ := child
  subst same
  simp only [element.sizeOf_spec, Element.mk.sizeOf_spec] at smaller
  omega

end Node

variable {view : View} {bag after : Bag} {nodes remaining : List Node} {name : String}

theorem mem_passedUnder_iff {content : List Node} :
    content ∈ passedUnder view name nodes ↔ ∃ node ∈ nodes, node.passed? view = some (name, content) := by
  simp only [passedUnder, List.mem_filterMap, Option.bind_eq_some_iff]
  constructor
  · rintro ⟨node, member, ⟨given, own⟩, passed, same⟩
    by_cases named : given = name
    · subst named
      rw [if_pos rfl] at same
      cases same
      exact ⟨node, member, passed⟩
    · rw [if_neg named] at same
      cases same
  · rintro ⟨node, member, passed⟩
    exact ⟨node, member, _, passed, if_pos rfl⟩

theorem claimContent_of_left (free : ∀ node ∈ nodes, node.isClaimed view = false) (bag : Bag) :
    claimContent view bag nodes = .ok (bag, nodes) := by
  induction nodes with
  | nil => rfl
  | cons node rest ih =>
      obtain ⟨here, later⟩ := List.forall_mem_cons.1 free
      cases node.fate view with
      | left _ _ _ _ step =>
          rw [step, ih later]
          rfl
      | passed _ _ taken | collected _ _ taken | lacking _ taken => simp [taken] at here

/-- All that is claimed is passed, and what is passed last under a name stands there before. -/
structure Repeats (view : View) (bag : Bag) (nodes : List Node) : Prop where
  passes : ∀ node ∈ nodes, node.isClaimed view = true → node.passed? view ≠ none
  stands : ∀ name content, (passedUnder view name nodes).getLast? = some content →
    bag.find? name = some (.ofContent content)

namespace Repeats

theorem collected?_eq_none (repeats : Repeats view bag nodes) :
    ∀ node ∈ nodes, node.collected? view = none := by
  intro node member
  cases collected : node.collected? view with
  | none => rfl
  | some entry =>
      obtain ⟨taken, noContent, -⟩ := Node.alone_of_collected collected
      exact absurd noContent (repeats.passes node member taken)

theorem lacking?_eq_none (repeats : Repeats view bag nodes) :
    ∀ node ∈ nodes, node.lacking? view = none := by
  intro node member
  cases lacking : node.lacking? view with
  | none => rfl
  | some tag =>
      obtain ⟨taken, noContent, -⟩ := Node.alone_of_lacking lacking
      exact absurd noContent (repeats.passes node member taken)

theorem collectedUnder_eq_nil (repeats : Repeats view bag nodes) (name : String) :
    collectedUnder view name nodes = [] := by
  refine List.filterMap_eq_nil_iff.2 fun node member => ?_
  rw [repeats.collected?_eq_none node member]
  rfl

/-- All names that are claimed are in the bag. -/
theorem mem_keys (repeats : Repeats view bag nodes) :
    ∀ name ∈ nodes.filterMap (·.claimedName? view), name ∈ bag.keys := by
  intro name member
  obtain ⟨node, among, named⟩ := List.mem_filterMap.1 member
  rw [Node.claimedName?, repeats.collected?_eq_none node among, Option.map_none, Option.or_none] at named
  obtain ⟨⟨given, content⟩, passed, rfl⟩ := Option.map_eq_some_iff.1 named
  have occurs : passedUnder view given nodes ≠ [] :=
    List.ne_nil_of_mem (mem_passedUnder_iff.2 ⟨node, among, passed⟩)
  have stands := repeats.stands given _ (List.getLast?_eq_some_getLast occurs)
  by_contra unknown
  rw [Dict.find?_eq_none_iff.2 unknown] at stands
  cases stands

/-- Children that all repeat what stands in the bag are claimed without a failure. -/
theorem exists_claimed (repeats : Repeats view bag nodes) :
    ∃ after remaining, claimContent view bag nodes = .ok (after, remaining) := by
  cases result : claimContent view bag nodes with
  | ok left => exact ⟨left.1, left.2, rfl⟩
  | error failure =>
      rcases lacks_or_collides result with ⟨node, member, tag, lacking, -⟩ | ⟨name, collides, -⟩
      · simp [repeats.lacking?_eq_none node member] at lacking
      · obtain ⟨before, node, rest, item, rfl, collected, -⟩ := collides
        simp [repeats.collected?_eq_none node (by simp)] at collected

end Repeats

namespace Claims

theorem contains (claims : Claims view bag nodes after remaining) (given : bag.contains name = true) :
    after.contains name = true := by
  rw [Bag.contains_iff] at given ⊢
  rw [claims.keys_eq]
  exact List.mem_append_left _ given

theorem mem_keys_of_collected (claims : Claims view bag nodes after remaining) {node : Node} {item : Bag}
    (member : node ∈ nodes) (collected : node.collected? view = some (name, item)) : name ∈ after.keys := by
  rw [claims.keys_eq, Dict.mem_keysWith_iff]
  refine Or.inr (List.mem_filterMap.2 ⟨node, member, ?_⟩)
  simp [Node.claimedName?, collected, Node.alone_of_collected collected]

variable {attributes : Dict Attribute}

theorem repeats_of_unchanged
    (claims : Claims view (.ofAttributes attributes) nodes (.ofAttributes attributes) remaining) :
    Repeats view (.ofAttributes attributes) nodes where
  passes := by
    intro node member taken noContent
    have other := claims.passed_or_collected node member taken
    rw [noContent] at other
    cases collected : node.collected? view with
    | none => simp [collected] at other
    | some entry =>
        obtain ⟨name, item⟩ := entry
        have known := claims.mem_keys_of_collected member collected
        -- What stands under the name is a value, so that the item would have been reported.
        cases found : (Bag.ofAttributes attributes).find? name with
        | none => exact Dict.find?_eq_none_iff.1 found known
        | some value =>
            obtain ⟨before, rest, split⟩ := List.append_of_mem member
            refine claims.not_collides name ⟨before, node, rest, item, split, collected, Or.inl ?_⟩
            refine ⟨value, found, fun items same => ?_⟩
            exact Bag.find?_ofAttributes_ne_array attributes name items (same ▸ found)
  stands := by
    intro name content last
    rw [claims.find?_eq, last]
    rfl

theorem unchanged_of_repeats (claims : Claims view (.ofAttributes attributes) nodes after remaining)
    (repeats : Repeats view (.ofAttributes attributes) nodes) : after = .ofAttributes attributes := by
  refine Dict.eq_of_find? ?_ (Bag.nodup_ofAttributes attributes) fun name => ?_
  · rw [claims.keys_eq, Dict.keysWith_of_known repeats.mem_keys]
  · rw [claims.find?_eq, repeats.collectedUnder_eq_nil]
    cases last : (passedUnder view name nodes).getLast? with
    | none => rfl
    | some content => exact (repeats.stands name content last).symm

theorem remaining_ne (claims : Claims view bag nodes after remaining)
    (taken : ∃ node ∈ nodes, node.isClaimed view = true) : remaining ≠ nodes := by
  intro same
  obtain ⟨node, member, claimed⟩ := taken
  rw [← same, claims.remaining_eq, List.mem_filter, claimed] at member
  cases member.2

/-- Once a child is claimed, the whole list of children is no content that a view finds. -/
theorem content_ne (claims : Claims view bag nodes after remaining)
    (taken : ∃ node ∈ nodes, node.isClaimed view = true) (absent : bag.contains Bag.contentName = false) :
    (after.addContent remaining).find? Bag.contentName ≠ some (.ofContent nodes) := by
  intro found
  have unknown : bag.find? Bag.contentName = none := by simpa [Dict.contains] using absent
  unfold Bag.addContent at found
  split at found
  · rw [claims.find?_eq, unknown] at found
    cases last : (passedUnder view Bag.contentName nodes).getLast? with
    | some content =>
        rw [last] at found
        obtain ⟨node, member, passed⟩ := mem_passedUnder_iff.1 (List.mem_of_getLast? last)
        refine Node.content_ne_of_passed member passed ?_
        simpa [ViewAttribute.ofContent] using found
    | none =>
        rw [last] at found
        cases items : collectedUnder view Bag.contentName nodes <;>
          simp [items, ViewAttribute.extended, ViewAttribute.ofContent] at found
  · refine claims.remaining_ne taken ?_
    simpa [ViewAttribute.ofContent] using found

/-- A run that claims a child gives the bag with the whole content only if the bag has a content
that is no child, and what is claimed is in the bag already. -/
theorem addContent_eq_iff (claims : Claims view (.ofAttributes attributes) nodes after remaining)
    (taken : ∃ node ∈ nodes, node.isClaimed view = true) :
    after.addContent remaining = (Bag.ofAttributes attributes).addContent nodes ↔
      (Bag.ofAttributes attributes).contains Bag.contentName = true ∧
        Repeats view (.ofAttributes attributes) nodes := by
  cases given : (Bag.ofAttributes attributes).contains Bag.contentName with
  | true =>
      rw [Bag.addContent_of_contains given, Bag.addContent_of_contains (claims.contains given)]
      constructor
      · rintro rfl
        exact ⟨rfl, claims.repeats_of_unchanged⟩
      · rintro ⟨-, repeats⟩
        exact claims.unchanged_of_repeats repeats
  | false =>
      have occupied : nodes ≠ [] := List.ne_nil_of_mem taken.choose_spec.1
      have whole : (Bag.ofAttributes attributes).addContent nodes =
          (Bag.ofAttributes attributes).insert Bag.contentName (.ofContent nodes) := by
        simp [Bag.addContent, given, occupied]
      constructor
      · intro same
        refine absurd ?_ (claims.content_ne taken given)
        rw [same, whole]
        simp
      · rintro ⟨present, -⟩
        cases present

end Claims

theorem Node.ofViewElement_eq_iff {element : Element} {bag : Bag} :
    Node.ofViewElement view element = .ok (.view view bag) ↔
      ∃ after remaining, claimContent view (.ofAttributes element.attributes) element.content =
        .ok (after, remaining) ∧ after.addContent remaining = bag := by
  unfold Node.ofViewElement
  cases claimed : claimContent view (.ofAttributes element.attributes) element.content with
  | error failure => simp [bind, Except.bind]
  | ok left =>
      obtain ⟨after, remaining⟩ := left
      simp [bind, Except.bind, pure, Except.pure]

/-- The attribute that a name of a view comes from. -/
def ViewName.toAttribute : ViewName → Attribute
  | .expression value => .dynamic value
  | .template nodes => .template nodes

/-- The element with a name. -/
def Element.named (element : Element) (name : Attribute) : Element :=
  { element with attributes := element.attributes.insert "name" name }

namespace ViewContext

variable {context : ViewContext}

theorem erase_named (element : Element) (name : Attribute) :
    (element.named name).attributes.erase "name" = element.attributes.erase "name" :=
  Dict.erase_insert element.attributes "name" name

theorem viewElement_dynamic (context : ViewContext) (element : Element) (viewName : ViewName) :
    context.viewElement (element.named viewName.toAttribute) =
      .ok (.dynamicView viewName element.unnamed.bag) := by
  have given : (element.named viewName.toAttribute).attributes.find? "name" = some viewName.toAttribute := by
    simp [Element.named]
  simp only [viewElement, given, erase_named]
  cases viewName <;> rfl

theorem viewElement_known {name : String} (filled : name ≠ "") (found : context.findView name = .ok view)
    (element : Element) :
    context.viewElement (element.named (.literal (.string name))) =
      Node.ofViewElement view element.unnamed := by
  have given : (element.named (.literal (.string name))).attributes.find? "name" =
      some (.literal (.string name)) := by
    simp [Element.named]
  have isFilled : name.isEmpty = false := by simpa using filled
  simp only [viewElement, given, erase_named, isFilled, found]
  rfl

/-- The reference by a name known later never fails and keeps the element's own bag. The reference to
a known view has this bag just where no child is claimed, or where all that is claimed repeats
attributes of the element, and its content is one of them. -/
theorem viewElement_agree_iff {name : String} (filled : name ≠ "") (found : context.findView name = .ok view)
    (element : Element) (viewName : ViewName) :
    context.viewElement (element.named viewName.toAttribute) =
        .ok (.dynamicView viewName element.unnamed.bag) ∧
      (context.viewElement (element.named (.literal (.string name))) = .ok (.view view element.unnamed.bag) ↔
        (∀ node ∈ element.content, node.isClaimed view = false) ∨
          (Bag.ofAttributes element.unnamed.attributes).contains Bag.contentName = true ∧
            Repeats view (.ofAttributes element.unnamed.attributes) element.content) := by
  refine ⟨viewElement_dynamic context element viewName, ?_⟩
  rw [viewElement_known filled found, Node.ofViewElement_eq_iff]
  by_cases free : ∀ node ∈ element.content, node.isClaimed view = false
  · exact iff_of_true ⟨_, _, claimContent_of_left free _, rfl⟩ (Or.inl free)
  have taken : ∃ node ∈ element.content, node.isClaimed view = true := by simpa using free
  rw [or_iff_right free]
  constructor
  · rintro ⟨after, remaining, claimed, same⟩
    exact ((claims_of_claimContent claimed).addContent_eq_iff taken).1 same
  · rintro ⟨given, repeats⟩
    obtain ⟨after, remaining, claimed⟩ := repeats.exists_claimed
    have claims := claims_of_claimContent claimed
    exact ⟨after, remaining, claimed, (claims.addContent_eq_iff taken).2 ⟨given, repeats⟩⟩

end ViewContext

/-- A view that declares no child elements. -/
def noteView : View :=
  ⟨"note", "", false, [], [], none⟩

def noteContext : ViewContext :=
  ⟨⟨fun name _ => if name = "note" then some noteView else none, fun _ => none⟩, none⟩

def noteElement (content : List Node) : Element :=
  ⟨"view", ⟨[("data-id", .literal (.string "n1"))]⟩, content, false⟩

def noteBag (entry : String × ViewAttribute) : Bag :=
  ⟨[("dataId", .literal (.string "n1")), entry]⟩

/-- A name that is known later. -/
def kindName : ViewName :=
  .expression (.ofExpr (.ofName "kind"))

theorem ViewContext.viewElement_agree_note :
    let content : List Node := [.text "A ", .element ⟨"b", .empty, [.text "note"], false⟩]
    "note" ≠ "" ∧ noteContext.findView "note" = .ok noteView ∧
      noteContext.viewElement ((noteElement content).named kindName.toAttribute) =
        .ok (.dynamicView kindName (noteBag ("content", .ofContent content))) ∧
      noteContext.viewElement ((noteElement content).named (.literal (.string "note"))) =
        .ok (.view noteView (noteBag ("content", .ofContent content))) := by
  intro content
  have found : noteContext.findView "note" = .ok noteView := rfl
  have free : ∀ node ∈ content, node.isClaimed noteView = false :=
    List.forall_mem_cons.2 ⟨rfl, List.forall_mem_singleton.2 rfl⟩
  obtain ⟨later, known⟩ := viewElement_agree_iff (by decide) found (noteElement content) kindName
  exact ⟨by decide, found, later, known.2 (Or.inl free)⟩

/-- An `attribute` child is passed to the known view, and stays in the content of the other one. -/
theorem ViewContext.not_viewElement_agree_note :
    let title : Node := .element ⟨"attribute", ⟨[("name", .literal (.string "title"))]⟩, [.text "T"], false⟩
    noteView.attributes = [] ∧ noteView.arrays = [] ∧
      noteContext.viewElement ((noteElement [title]).named kindName.toAttribute) =
        .ok (.dynamicView kindName (noteBag ("content", .ofContent [title]))) ∧
      noteContext.viewElement ((noteElement [title]).named (.literal (.string "note"))) =
        .ok (.view noteView (noteBag ("title", .ofContent [.text "T"]))) ∧
      noteBag ("content", .ofContent [title]) ≠ noteBag ("title", .ofContent [.text "T"]) := by
  intro title
  refine ⟨rfl, rfl, rfl, rfl, fun same => ?_⟩
  have keys := congrArg Dict.keys same
  simp [noteBag, Dict.keys] at keys

end Stencil
