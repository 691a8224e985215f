import Mathlib.Data.List.Forall2
import Stencil.Proofs.Lockstep
import Stencil.Template.Composition

/-! Trees that differ only in the views that their references lead to.

Building a tree does not look at these views but to see which child elements they
claim. So two runs that come by views with the same claims build such trees.
-/

set_option autoImplicit false

namespace Stencil

open List (Forall₂)

namespace Dict

variable {α : Type}

/-- Two entries of one key. -/
inductive Entry (related : α → α → Prop) : String × α → String × α → Prop where
  | mk {key : String} {left right : α} : related left right → Entry related (key, left) (key, right)

/-- The same keys in the same order, and related values. -/
inductive Matches (related : α → α → Prop) : Dict α → Dict α → Prop where
  | mk {left right : List (String × α)} :
      Forall₂ (Entry related) left right → Matches related ⟨left⟩ ⟨right⟩

variable {related : α → α → Prop} {first second : Dict α}

theorem matches_empty : Matches related .empty .empty :=
  .mk .nil

theorem Matches.insert (same : Matches related first second) (key : String) {left right : α}
    (values : related left right) : Matches related (first.insert key left) (second.insert key right) := by
  obtain ⟨entries⟩ := same
  refine .mk ?_
  induction entries with
  | nil => exact .cons (.mk values) .nil
  | cons entry rest ih =>
      obtain ⟨old⟩ := entry
      simp only [put]
      split
      · exact .cons (.mk values) rest
      · exact .cons (.mk old) ih

theorem Matches.find? (same : Matches related first second) (key : String) :
    Option.Rel related (first.find? key) (second.find? key) := by
  obtain ⟨entries⟩ := same
  simp only [Dict.find?]
  induction entries with
  | nil => exact .none
  | cons entry _ ih =>
      obtain ⟨values⟩ := entry
      simp only [List.lookup_cons]
      split
      · exact .some values
      · exact ih

theorem Matches.contains_eq (same : Matches related first second) (key : String) :
    first.contains key = second.contains key := by
  have found := same.find? key
  simp only [contains]
  generalize first.find? key = left, second.find? key = right at found
  cases found <;> rfl

theorem Matches.erase (same : Matches related first second) (key : String) :
    Matches related (first.erase key) (second.erase key) := by
  obtain ⟨entries⟩ := same
  refine .mk ?_
  induction entries with
  | nil => exact .nil
  | cons entry _ ih =>
      obtain ⟨values⟩ := entry
      simp only [List.filter_cons]
      split
      · exact .cons (.mk values) ih
      · exact ih

end Dict

open Dict (Matches)

mutual
/-- Nodes of the same kind that hold the same texts and expressions. -/
inductive Node.Alike : Node → Node → Prop where
  | element {first second : Element} : Element.Alike first second →
      Node.Alike (.element first) (.element second)
  | text {data : String} : Node.Alike (.text data) (.text data)
  | dynamic {expression : Expression} : Node.Alike (.dynamic expression) (.dynamic expression)
  | comment {data : String} : Node.Alike (.comment data) (.comment data)
  | conditional {first second : Branches} : Branches.Alike first second →
      Node.Alike (.conditional first) (.conditional second)
  | each {opener : Expression} {first second : List Node} {other other' : Option (List Node)} :
      Forall₂ Node.Alike first second → Option.Rel (Forall₂ Node.Alike) other other' →
      Node.Alike (.each opener first other) (.each opener second other')
  | block {opener : Expression} {first second : List Node} : Forall₂ Node.Alike first second →
      Node.Alike (.block opener first) (.block opener second)
  -- Here the trees may differ.
  | view {view other : View} {first second : Dict ViewAttribute} :
      Matches ViewAttribute.Alike first second → Node.Alike (.view view first) (.view other second)
  | dynamicView {name other : ViewName} {first second : Dict ViewAttribute} :
      ViewName.Alike name other → Matches ViewAttribute.Alike first second →
      Node.Alike (.dynamicView name first) (.dynamicView other second)

inductive Element.Alike : Element → Element → Prop where
  | mk {tag : String} {attributes others : Dict Attribute} {content inner : List Node} {isVoid : Bool} :
      Matches Attribute.Alike attributes others → Forall₂ Node.Alike content inner →
      Element.Alike ⟨tag, attributes, content, isVoid⟩ ⟨tag, others, inner, isVoid⟩

inductive Branches.Alike : Branches → Branches → Prop where
  | mk {guards : List Expression} {first second : List (List Node)} :
      Forall₂ (Forall₂ Node.Alike) first second → Branches.Alike ⟨guards, first⟩ ⟨guards, second⟩

inductive Attribute.Alike : Attribute → Attribute → Prop where
  | literal {value : Value} : Attribute.Alike (.literal value) (.literal value)
  | dynamic {expression : Expression} : Attribute.Alike (.dynamic expression) (.dynamic expression)
  | template {first second : List Node} : Forall₂ Node.Alike first second →
      Attribute.Alike (.template first) (.template second)

inductive ViewName.Alike : ViewName → ViewName → Prop where
  | expression {expression : Expression} :
      ViewName.Alike (.expression expression) (.expression expression)
  | template {first second : List Node} : Forall₂ Node.Alike first second →
      ViewName.Alike (.template first) (.template second)

inductive ViewAttribute.Alike : ViewAttribute → ViewAttribute → Prop where
  | literal {value : Value} : ViewAttribute.Alike (.literal value) (.literal value)
  | wrapper {first second : List Node} {expression : Option Expression} :
      Forall₂ Node.Alike first second →
      ViewAttribute.Alike (.wrapper first expression) (.wrapper second expression)
  | array {first second : List (Dict ViewAttribute)} :
      Forall₂ (Matches ViewAttribute.Alike) first second →
      ViewAttribute.Alike (.array first) (.array second)
end

/-- What two runs have passed to a view. -/
abbrev Bag.Alike : Bag → Bag → Prop :=
  Matches ViewAttribute.Alike

theorem Attribute.Alike.passed {left right : Attribute} (same : left.Alike right) :
    (ViewAttribute.ofAttribute left).Alike (ViewAttribute.ofAttribute right) := by
  cases same with
  | literal => exact .literal
  | dynamic => exact .wrapper (.cons .dynamic .nil)
  | template nodes => exact .wrapper nodes

namespace Bag

theorem alike_ofAttributes {first second : Dict Attribute} (same : Matches Attribute.Alike first second) :
    Bag.Alike (ofAttributes first) (ofAttributes second) := by
  obtain ⟨entries⟩ := same
  refine List.rel_foldl (P := Bag.Alike) ?_ Dict.matches_empty entries
  rintro bag other bags _ _ ⟨values⟩
  exact bags.insert _ values.passed

variable {first second : Bag}

theorem Alike.addContent (same : first.Alike second) {content inner : List Node}
    (nodes : Forall₂ Node.Alike content inner) :
    (first.addContent content).Alike (second.addContent inner) := by
  have empty : content.isEmpty = inner.isEmpty := by cases nodes <;> rfl
  simp only [Bag.addContent, same.contains_eq, empty]
  split
  · exact same
  · exact same.insert contentName (.wrapper nodes)

theorem Alike.addItem (same : first.Alike second) (name : String) {item other : Bag}
    (items : item.Alike other) : Lockstep Bag.Alike (first.addItem name item) (second.addItem name other) := by
  have found := same.find? name
  simp only [Bag.addItem]
  generalize first.find? name = left, second.find? name = right at found
  cases found with
  | none => exact .done (same.insert name (.array (.cons items .nil)))
  | some values =>
      cases values with
      | literal | wrapper => exact .failed
      | array bags => exact .done (same.insert name (.array (List.rel_append bags (.cons items .nil))))

/-- What an expression passes has no views in it. -/
theorem alike_ofExpr {source : String} {object : Option Expr} {bag : Bag}
    (read : ofExpr source object = .ok bag) : bag.Alike bag := by
  unfold ofExpr at read
  split at read
  · cases read
    exact Dict.matches_empty
  · rename_i members
    cases read
    refine List.foldlRecOn (motive := fun bag : Bag => bag.Alike bag) members.entries _
      Dict.matches_empty fun bag same entry _ => ?_
    exact same.insert entry.1 .literal
  · split at read
    · apply ofPairs_induction (motive := fun bag : Bag => bag.Alike bag) read Dict.matches_empty
      · exact fun bag name value same => same.insert name .literal
      · exact fun bag name value same => same.insert name (.wrapper (.cons .dynamic .nil))
    · exact absurd read (by simp)
  · exact absurd read (by simp)

end Bag

/-- Both views claim the same child elements. -/
def View.ClaimsAlike (view other : View) : Prop :=
  view.attributes = other.attributes ∧ view.arrays = other.arrays

namespace Element

inductive Claim.Alike : Claim → Claim → Prop where
  | passed {name : String} {first second : Element} : first.Alike second →
      Claim.Alike (.passed name first) (.passed name second)
  | collected {name : String} {first second : Element} : first.Alike second →
      Claim.Alike (.collected name first) (.collected name second)

theorem Claim.Alike.addTo {claim other : Claim} (same : claim.Alike other) {first second : Bag}
    (bags : first.Alike second) : Lockstep Bag.Alike (claim.addTo first) (other.addTo second) := by
  cases same with
  | passed elements =>
      obtain ⟨-, nodes⟩ := elements
      exact .done (bags.insert _ (.wrapper nodes))
  | collected elements =>
      obtain ⟨attributes, nodes⟩ := elements
      exact bags.addItem _ ((Bag.alike_ofAttributes attributes).addContent nodes)

variable {first second : Element}

theorem Alike.tag_eq (same : first.Alike second) : first.tag = second.tag := by
  cases same
  rfl

theorem Alike.erase (same : first.Alike second) (name : String) :
    Alike { first with attributes := first.attributes.erase name }
      { second with attributes := second.attributes.erase name } := by
  obtain ⟨attributes, nodes⟩ := same
  exact .mk (attributes.erase name) nodes

theorem Alike.withContent (same : first.Alike second) {content inner : List Node}
    (nodes : Forall₂ Node.Alike content inner) :
    Alike { first with content := content } { second with content := inner } := by
  obtain ⟨attributes, -⟩ := same
  exact .mk attributes nodes

theorem Alike.bag (same : first.Alike second) : first.bag.Alike second.bag := by
  obtain ⟨attributes, nodes⟩ := same
  exact (Bag.alike_ofAttributes attributes).addContent nodes

theorem Alike.find? (same : first.Alike second) (name : String) :
    Option.Rel Attribute.Alike (first.attributes.find? name) (second.attributes.find? name) := by
  obtain ⟨attributes, -⟩ := same
  exact attributes.find? name

theorem Alike.takeName (same : first.Alike second) :
    Lockstep (fun left right => left.1 = right.1 ∧ left.2.Alike right.2) first.takeName
      second.takeName := by
  obtain @⟨tag, attributes, others, content, inner, isVoid, entries, nodes⟩ := same
  have found := entries.find? "name"
  simp only [Element.takeName]
  generalize attributes.find? "name" = left, others.find? "name" = right at found
  cases found with
  | none => exact .failed
  | some values =>
      cases values with
      | dynamic | template => exact .failed
      | @literal value =>
          cases value with
          | string name =>
              simp only
              split
              · exact .failed
              · exact .done ⟨rfl, .mk (entries.erase "name") nodes⟩
          | _ => exact .failed

theorem Alike.claim? (same : first.Alike second) {view other : View} (claims : view.ClaimsAlike other) :
    Lockstep (Option.Rel Claim.Alike) (first.claim? view) (second.claim? other) := by
  obtain ⟨attributes, arrays⟩ := claims
  simp only [Element.claim?, same.tag_eq, attributes, arrays]
  split
  · refine same.takeName.bind fun left right taken => ?_
    obtain ⟨names, elements⟩ := taken
    simp only [names]
    exact .done (.some (.passed elements))
  split
  · exact .done (.some (.passed same))
  split
  · refine same.takeName.bind fun left right taken => ?_
    obtain ⟨names, elements⟩ := taken
    simp only [names]
    exact .done (.some (.collected elements))
  split
  · exact .done (.some (.collected same))
  · exact .done .none

end Element

theorem claimContent_lockstep {view other : View} (claims : view.ClaimsAlike other)
    {content inner : List Node} (nodes : Forall₂ Node.Alike content inner) {first second : Bag}
    (bags : first.Alike second) :
    Lockstep (fun left right => left.1.Alike right.1 ∧ Forall₂ Node.Alike left.2 right.2)
      (claimContent view first content) (claimContent other second inner) := by
  induction nodes generalizing first second with
  | nil => exact .done ⟨bags, .nil⟩
  | @cons node node' rest rest' same _ ih =>
      have remaining : Lockstep (fun left right => left.1.Alike right.1 ∧ Forall₂ Node.Alike left.2 right.2)
          (claimContent view first rest >>= fun left => pure (left.1, node :: left.2))
          (claimContent other second rest' >>= fun right => pure (right.1, node' :: right.2)) :=
        (ih bags).bind fun _ _ left => .done ⟨left.1, .cons same left.2⟩
      simp only [claimContent]
      -- Only elements are claimed.
      cases same with
      | element elements =>
          refine (elements.claim? claims).bind fun _ _ taken => ?_
          cases taken with
          | some claim => exact (claim.addTo bags).bind fun _ _ added => ih added
          | none => exact remaining
      | _ => exact remaining

theorem Element.Alike.reference {first second : Element} (same : first.Alike second) {view other : View}
    (claims : view.ClaimsAlike other) :
    Lockstep Node.Alike (Node.ofViewElement view first) (Node.ofViewElement other second) := by
  obtain ⟨attributes, nodes⟩ := same
  refine (claimContent_lockstep claims nodes (Bag.alike_ofAttributes attributes)).bind ?_
  rintro left right ⟨bags, remaining⟩
  exact .done (.view (bags.addContent remaining))

namespace ViewContext

/-- Every view that the first context finds has one in the second that claims alike. -/
structure CoveredBy (first second : ViewContext) : Prop where
  views : ∀ name view, first.lookup.find? name first.home = some view →
    ∃ other, second.lookup.find? name second.home = some other ∧ view.ClaimsAlike other
  elements : ∀ tag, Option.Rel View.ClaimsAlike (first.lookup.element? tag) (second.lookup.element? tag)

variable {first second : ViewContext}

theorem CoveredBy.findView (covered : first.CoveredBy second) (name : String) :
    Lockstep View.ClaimsAlike (first.findView name) (second.findView name) := by
  unfold ViewContext.findView
  cases found : first.lookup.find? name first.home with
  | none => exact .unknown ⟨name, rfl⟩
  | some view =>
      obtain ⟨other, there, claims⟩ := covered.views name view found
      rw [there]
      exact .done claims

theorem CoveredBy.viewElement (covered : first.CoveredBy second) {element other : Element}
    (same : element.Alike other) :
    Lockstep Node.Alike (first.viewElement element) (second.viewElement other) := by
  have found := same.find? "name"
  have unnamed := same.erase "name"
  simp only [ViewContext.viewElement]
  generalize element.attributes.find? "name" = left, other.attributes.find? "name" = right at found
  cases found with
  | none => exact .failed
  | some values =>
      cases values with
      | dynamic => exact .done (.dynamicView .expression unnamed.bag)
      | template nodes => exact .done (.dynamicView (.template nodes) unnamed.bag)
      | @literal value =>
          cases value with
          | string name =>
              simp only
              split
              · exact .failed
              · exact (covered.findView name).bind fun _ _ claims => unnamed.reference claims
          | _ => exact .failed

theorem CoveredBy.viewExpression (covered : first.CoveredBy second) (expression : Expression) :
    Lockstep Node.Alike (first.viewExpression expression) (second.viewExpression expression) := by
  simp only [ViewContext.viewExpression]
  split
  -- However the name and the object are told apart, they are used in the same way.
  all_goals
    refine Lockstep.bind_same fun parts => ?_
    obtain ⟨name, object⟩ := parts
    refine (Lockstep.refl fun _ read => Bag.alike_ofExpr read).bind fun bag other bags => ?_
    split
    · exact (covered.findView _).bind fun _ _ _ => .done (.view bags)
    · exact .done (.dynamicView .expression bags)
    · exact .done (.dynamicView .expression bags)
    · exact .done (.dynamicView .expression bags)
    · exact .failed

end ViewContext

end Stencil
