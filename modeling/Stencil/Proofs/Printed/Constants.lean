import Stencil.Proofs.Printed.RoundTrip

/-! Constants read back from their text.

The text of a value is compact JSON, and an expression may hold it as it is. Every array and
every object takes two of the depth to which an expression may nest, and what stands in the
innermost one takes at most two more.
-/

set_option autoImplicit false

namespace Stencil

mutual
/-- How many arrays and objects stand inside one another. -/
def Value.containers : Value → Nat
  | .array items => Value.itemContainers items + 1
  | .object members => Value.memberContainers members.entries + 1
  | _ => 0

def Value.itemContainers : List Value → Nat
  | [] => 0
  | item :: rest => max item.containers (Value.itemContainers rest)

def Value.memberContainers : List (String × Value) → Nat
  | [] => 0
  | (_, value) :: rest => max value.containers (Value.memberContainers rest)
end

namespace Value

theorem containers_le_of_item {items : List Value} {item : Value} (member : item ∈ items) :
    item.containers ≤ itemContainers items := by
  induction items with
  | nil => cases member
  | cons first rest ih =>
      rw [itemContainers, le_max_iff]
      rcases List.mem_cons.1 member with rfl | later
      · exact .inl (le_refl _)
      · exact .inr (ih later)

theorem containers_le_of_member {entries : List (String × Value)} {entry : String × Value}
    (member : entry ∈ entries) : entry.2.containers ≤ memberContainers entries := by
  induction entries with
  | nil => cases member
  | cons first rest ih =>
      rw [memberContainers, le_max_iff]
      rcases List.mem_cons.1 member with rfl | later
      · exact .inl (le_refl _)
      · exact .inr (ih later)

theorem nesting_le {value : Value} (formed : value.Formed) : value.nesting ≤ 2 * value.containers + 2 := by
  induction formed with
  | null | bool | string => simp only [nesting, containers]; omega
  | int | float =>
      simp only [nesting, containers]
      split <;> omega
  | @array items _ ih =>
      have inner : ∀ item ∈ items, item.nesting < 2 * itemContainers items + 3 := fun item member => by
        have least := ih item member
        have most := containers_le_of_item member
        omega
      have whole := nesting_array_le.2 inner
      rw [containers]
      omega
  | @object members _ _ ih =>
      have inner : ∀ entry ∈ members.entries,
          entry.2.nesting < 2 * memberContainers members.entries + 3 := fun entry member => by
        have least := ih entry member
        have most := containers_le_of_member member
        omega
      have whole := nesting_object_le.2 inner
      rw [containers]
      omega

end Value

namespace Expr

open Grammar

/-- The text of a constant that is not nested too deeply is an expression for this very constant,
with the members of its objects in their order. -/
theorem parse_text_literal {value : Value} (formed : value.Formed) (shallow : value.containers ≤ 126) :
    parse (literal value).text = .ok (.literal value) := by
  have nesting : (literal value).nesting < depthLimit := by
    have most := Value.nesting_le formed
    simp only [Expr.nesting, depthLimit]
    omega
  exact (parse_text_of_formed (.literal formed)).2 ⟨Nat.zero_le _, rfl, nesting⟩

/-- The escapes of strings, a number with a sign, and containers with nothing in them. -/
theorem parse_text_literal_settings :
    let value : Value := .object ⟨[("b\n", .array [.int (-9223372036854775807), .null, .object ⟨[]⟩]),
      ("a", .string "é\\\"\x1f"), ("c", .array [])]⟩
    value.Formed ∧ value.containers ≤ 126 ∧
      (literal value).text =
        "\x7b\"b\\n\":[-9223372036854775807,null,\x7b\x7d],\"a\":\"é\\\\\\\"\\u001f\",\"c\":[]\x7d" ∧
      parse (literal value).text = .ok (.literal value) := by
  intro value
  have inner : (Value.array [.int (-9223372036854775807), .null, .object ⟨[]⟩]).Formed := by
    refine .array (List.forall_mem_cons.2 ⟨.int ⟨by decide, by decide⟩, List.forall_mem_cons.2 ⟨.null, ?_⟩⟩)
    exact List.forall_mem_singleton.2 (.object List.nodup_nil nofun)
  have formed : value.Formed := by
    refine .object (by decide) ?_
    refine List.forall_mem_cons.2 ⟨inner, List.forall_mem_cons.2 ⟨.string _, ?_⟩⟩
    exact List.forall_mem_singleton.2 (.array nofun)
  have shallow : value.containers ≤ 126 := by decide
  exact ⟨formed, shallow, by cbv, parse_text_literal formed shallow⟩

end Expr

end Stencil
