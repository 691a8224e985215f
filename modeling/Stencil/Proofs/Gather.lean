/-! Reading items in order, and machines that take an item by way of what it holds. -/

set_option autoImplicit false

namespace Stencil

variable {ε α β σ : Type}

theorem bind_eq_ok_iff {first : Except ε α} {next : α → Except ε β} {result : β} :
    first >>= next = .ok result ↔ ∃ value, first = .ok value ∧ next value = .ok result := by
  cases first <;> simp [bind, Except.bind]

/-- What every step keeps, a run keeps. -/
theorem foldlM_induction {step : σ → β → Except ε σ} {motive : σ → Prop} {items : List β}
    {first last : σ} (folded : items.foldlM step first = .ok last) (start : motive first)
    (keeps : ∀ before item after, motive before → item ∈ items → step before item = .ok after →
      motive after) : motive last := by
  induction items generalizing first with
  | nil =>
      cases folded
      exact start
  | cons item rest ih =>
      rw [List.foldlM_cons] at folded
      obtain ⟨middle, taken, others⟩ := bind_eq_ok_iff.1 folded
      apply ih others (keeps first item middle start List.mem_cons_self taken)
      intro before other after kept member
      exact keeps before other after kept (List.mem_cons_of_mem item member)

/-- What some items hold, in order, if every one of them reads. -/
def gather (read : α → Except ε (List β)) : List α → Except ε (List β)
  | [] => .ok []
  | item :: rest => do
      let first ← read item
      let others ← gather read rest
      pure (first ++ others)

section

variable {read : α → Except ε (List β)}

theorem gather_cons_eq_ok_iff {item : α} {rest : List α} {parts : List β} :
    gather read (item :: rest) = .ok parts ↔
      ∃ first others, read item = .ok first ∧ gather read rest = .ok others ∧
        parts = first ++ others := by
  simp only [gather, bind_eq_ok_iff]
  constructor
  · rintro ⟨first, here, others, later, same⟩
    exact ⟨first, others, here, later, (Except.ok.inj same).symm⟩
  · rintro ⟨first, others, here, later, rfl⟩
    exact ⟨first, here, others, later, rfl⟩

/-- Every part comes from an item. -/
theorem exists_item_of_mem_gather {items : List α} {parts : List β} {part : β}
    (found : gather read items = .ok parts) (member : part ∈ parts) :
    ∃ item ∈ items, ∃ own, read item = .ok own ∧ part ∈ own := by
  induction items generalizing parts with
  | nil =>
      obtain rfl := Except.ok.inj found
      exact absurd member List.not_mem_nil
  | cons item rest ih =>
      obtain ⟨first, others, here, later, rfl⟩ := gather_cons_eq_ok_iff.1 found
      rcases List.mem_append.1 member with own | other
      · exact ⟨item, List.mem_cons_self, first, here, own⟩
      · obtain ⟨holder, holds, more⟩ := ih later other
        exact ⟨holder, List.mem_cons_of_mem item holds, more⟩

theorem gather_append {first second : List α} {left right : List β}
    (here : gather read first = .ok left) (later : gather read second = .ok right) :
    gather read (first ++ second) = .ok (left ++ right) := by
  induction first generalizing left with
  | nil =>
      obtain rfl := Except.ok.inj here
      exact later
  | cons item rest ih =>
      obtain ⟨parts, others, found, more, rfl⟩ := gather_cons_eq_ok_iff.1 here
      rw [List.append_assoc]
      exact gather_cons_eq_ok_iff.2 ⟨parts, others ++ right, found, ih more, rfl⟩

end

/-- A machine that takes an item as it takes the parts of the item, one after
another. Where an item does not read, the machine fails in its own way. -/
structure Through (act : σ → α → Except ε σ) (read : α → Except ε (List β))
    (step : σ → β → Except ε σ) : Prop where
  run : ∀ {item parts}, read item = .ok parts → ∀ state, act state item = parts.foldlM step state
  reads : ∀ {state item after}, act state item = .ok after → ∃ parts, read item = .ok parts

/-- A machine that takes single items through their parts takes lists of items
through all their parts. -/
theorem Through.gather {act : σ → α → Except ε σ} {read : α → Except ε (List β)}
    {step : σ → β → Except ε σ} (through : Through act read step) :
    Through (fun state items => items.foldlM act state) (gather read) step where
  run := by
    intro items
    induction items with
    | nil =>
        intro parts found state
        obtain rfl := Except.ok.inj found
        rfl
    | cons item rest ih =>
        intro parts found state
        obtain ⟨first, others, here, later, rfl⟩ := gather_cons_eq_ok_iff.1 found
        simp only [List.foldlM_cons, List.foldlM_append, through.run here, ih later]
  reads := by
    intro state items
    induction items generalizing state with
    | nil =>
        intro after _
        exact ⟨[], rfl⟩
    | cons item rest ih =>
        -- The state decides how far the machine gets, but not what an item holds.
        intro after passed
        simp only [List.foldlM_cons] at passed
        obtain ⟨middle, first, others⟩ := bind_eq_ok_iff.1 passed
        obtain ⟨parts, here⟩ := through.reads first
        obtain ⟨more, later⟩ := ih others
        exact ⟨parts ++ more, gather_cons_eq_ok_iff.2 ⟨parts, more, here, later, rfl⟩⟩

end Stencil
