import Stencil.Failure

/-! Two runs side by side, of which only the first may come upon a view that it does
not know.

Up to that point both do the same: they fail alike, or go on with related results.
-/

set_option autoImplicit false

namespace Stencil

/-- The failure is for a name without a view. -/
def Failure.IsUnknownView (failure : Failure) : Prop :=
  ∃ name, failure.cause = .unknownView name

variable {α β γ δ ι : Type}

/-- How two runs end that stay together. -/
inductive Lockstep (related : α → β → Prop) : Except Failure α → Except Failure β → Prop where
  | unknown {failure : Failure} {second : Except Failure β} :
      failure.IsUnknownView → Lockstep related (.error failure) second
  | failed {failure : Failure} : Lockstep related (.error failure) (.error failure)
  | done {first : α} {second : β} : related first second → Lockstep related (.ok first) (.ok second)

namespace Lockstep

/-- One run stays together with itself, if its result is related to itself. -/
theorem refl {related : α → α → Prop} {run : Except Failure α}
    (result : ∀ value, run = .ok value → related value value) : Lockstep related run run := by
  cases run with
  | error failure => exact .failed
  | ok value => exact .done (result value rfl)

theorem bind {related : α → β → Prop} {outcome : γ → δ → Prop} {first : Except Failure α}
    {second : Except Failure β} {next : α → Except Failure γ} {next' : β → Except Failure δ}
    (start : Lockstep related first second)
    (goOn : ∀ left right, related left right → Lockstep outcome (next left) (next' right)) :
    Lockstep outcome (first >>= next) (second >>= next') := by
  cases start with
  | unknown missing => exact .unknown missing
  | failed => exact .failed
  | done values => exact goOn _ _ values

/-- What both do with a value that both have found. -/
theorem bind_same {outcome : γ → δ → Prop} {run : Except Failure α} {next : α → Except Failure γ}
    {next' : α → Except Failure δ} (goOn : ∀ value, Lockstep outcome (next value) (next' value)) :
    Lockstep outcome (run >>= next) (run >>= next') := by
  have start : Lockstep Eq run run := refl fun _ _ => rfl
  exact start.bind fun _ _ same => same ▸ goOn _

/-- Two runs over the same items stay together if every step of theirs does. -/
theorem foldlM {related : α → β → Prop} {step : α → ι → Except Failure α}
    {step' : β → ι → Except Failure β}
    (keeps : ∀ left right item, related left right → Lockstep related (step left item) (step' right item))
    {left : α} {right : β} (start : related left right) (items : List ι) :
    Lockstep related (items.foldlM step left) (items.foldlM step' right) := by
  induction items generalizing left right with
  | nil => exact .done start
  | cons item rest ih =>
      rw [List.foldlM_cons, List.foldlM_cons]
      exact (keeps left right item start).bind fun _ _ values => ih values

/-- A place around both failures keeps them alike. -/
theorem within {related : α → β → Prop} {first : Except Failure α} {second : Except Failure β}
    (start : Lockstep related first second) (place : Within) :
    Lockstep related (first.mapError (·.within place)) (second.mapError (·.within place)) := by
  cases start with
  | unknown missing => exact .unknown missing
  | failed => exact .failed
  | done values => exact .done values

end Lockstep

end Stencil
